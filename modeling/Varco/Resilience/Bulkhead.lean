import Mathlib.Data.Rat.Floor
import Mathlib.Data.String.Basic
import Varco.Foundations.Python
import Varco.Foundations.Run
import Varco.Foundations.SortedSet

/-!
# The distributed bulkhead

`RedisBulkhead` of `varco_redis.bulkhead`: any number of calls, in any number of processes, share
the slots of one name, which are the members of a sorted set in Redis. A slot is scored by its
acquisition timestamp, the reading of the clock that the call sends along; the script may run later
than that, and the answer may never arrive. A slot that is not released is reclaimed when it is
`slot_ttl` old, and the key expires when no slot was acquired for longer.

Whatever is interleaved, at most `max_concurrent` calls run whose slot is younger than `slot_ttl`
(`bounded_concurrency`).
-/

namespace Varco

open Function

/-! ## Configuration -/

/-- `f"{x:.3f}"`, for a number that is not negative. -/
def fixed3 (x : ℚ) : String :=
  let thousandths := (roundHalfEven (x.num * 1000) x.den).toNat
  let fraction := toString (thousandths % 1000)
  toString (thousandths / 1000) ++ "." ++
  String.ofList (List.replicate (3 - fraction.length) '0') ++
    fraction

structure BulkheadConfig where
  maxConcurrent : ℕ
  maxWait : PyFloat
  maxConcurrent_pos : 1 ≤ maxConcurrent
  maxWait_nonneg : 0 ≤ maxWait.val

def bulkheadFullError (name : String) (config : BulkheadConfig) : PyException where
  typeName := "BulkheadFullError"
  message := "Bulkhead '" ++ name ++ "' is full (" ++ toString config.maxConcurrent ++
    " concurrent calls in-flight). No slot available after " ++ fixed3 config.maxWait.val ++ " s."

/-- `RedisBulkhead`, with the prefix of the keys from its settings. -/
structure RedisBulkhead where
  config : BulkheadConfig
  channelPrefix : String
  slotTtl : PyFloat
  name : String
  slotTtl_pos : 0 < slotTtl.val

namespace RedisBulkhead

def key (b : RedisBulkhead) : String := b.channelPrefix ++ "bulkhead:" ++ b.name

/-! ## The scripts -/

abbrev Slots := SortedKeys String ℚ String

open SortedKeys

/-- `_ACQUIRE_SCRIPT`, run at the time `clock`. -/
def acquireScript (clock : ℚ) (key : String) (now expiryLow : ℚ) (maxSlots : ℕ) (token : String)
    (keyTtl : ℤ) (server : Slots) : ℕ × Slots :=
  let server := zremrangebyscore server clock key 0 expiryLow
  let count := zcard server clock key
  if count < maxSlots then
    let server := zadd server clock key now token
    let server := expireat server clock key (clock + keyTtl)
    (1, server)
  else (0, server)

/-- `_RELEASE_SCRIPT`, run at the time `clock`. -/
def releaseScript (clock : ℚ) (key token : String) (server : Slots) : Slots :=
  zrem server clock key token

/-- Where a call is. -/
inductive Phase
  /-- Not called yet. -/
  | idle
  /-- At the head of the loop of `_acquire`. -/
  | polling (deadline : ℚ)
  /-- The script is on its way, with the reading of the clock. -/
  | requesting (deadline now : ℚ)
  /-- `func` runs. -/
  | running (acquired : ℚ)
  /-- `func` has returned or raised, and `_release` is on its way. -/
  | releasing (outcome : Except Exc Unit)
  | done (outcome : Except Exc Unit)
  | crashed

/-- The clocks, the server and the calls, each known by its token; and the slots that were acquired
and not released, with their acquisition timestamps. -/
structure State where
  clock : ℚ
  monotonic : ℚ := 0
  server : Slots := .empty
  calls : String → Phase := fun _ => .idle
  held : String → Option ℚ := fun _ => none

/-- What happens next. An answer may be lost with the request (`unsent`) or after the script has run
(`lost`): the connection fails, or the call is cancelled. -/
inductive Move
  | tick (clock monotonic : ℚ)
  | start (token : String)
  | read (token : String)
  | acquire (token : String)
  | lost (token : String) (exc : Exc)
  | unsent (token : String) (exc : Exc)
  | finish (token : String) (outcome : Except Exc Unit)
  | release (token : String)
  | releaseLost (token : String)
  | releaseUnsent (token : String)
  | crash (token : String)

/-- The script of `_acquire` runs with the reading `now`. -/
def State.script (b : RedisBulkhead) (t : State) (token : String) (now : ℚ) : ℕ × Slots :=
  acquireScript t.clock b.key now (now - b.slotTtl.val) b.config.maxConcurrent token
    (⌊b.slotTtl.val⌋ + 1) t.server

def State.goto (t : State) (token : String) (phase : Phase) : State :=
  { t with calls := update t.calls token phase }

def State.scripted (b : RedisBulkhead) (t : State) (token : String) (now : ℚ) : State :=
  { t with
    server := (t.script b token now).2
    held := if (t.script b token now).1 = 0 then t.held
      else update t.held token (some now) }

def State.released (b : RedisBulkhead) (t : State) (token : String) : State :=
  { t with
    server := releaseScript t.clock b.key token t.server
    held := update t.held token none }

/-- One step. Tokens are drawn by `uuid4`, so a token is new when a call starts. -/
inductive Step (b : RedisBulkhead) (t : State) : Move → State → Prop
  | tick {clock monotonic : ℚ} (hclock : t.clock ≤ clock) (hmono : t.monotonic ≤ monotonic) :
      Step b t (.tick clock monotonic) { t with clock, monotonic }
  | start {token : String} (hcall : t.calls token = .idle) :
      Step b t (.start token) (t.goto token (.polling (t.monotonic + b.config.maxWait.val)))
  | read {token : String} {deadline : ℚ} (hcall : t.calls token = .polling deadline) :
      Step b t (.read token) (t.goto token (.requesting deadline t.clock))
  | granted {token : String} {deadline now : ℚ} (hcall : t.calls token = .requesting deadline now)
      (hscript : (t.script b token now).1 ≠ 0) :
      Step b t (.acquire token) ((t.scripted b token now).goto token (.running now))
  | full {token : String} {deadline now : ℚ} (hcall : t.calls token = .requesting deadline now)
      (hscript : (t.script b token now).1 = 0)
      (hwait : b.config.maxWait.val ≤ 0 ∨ deadline ≤ t.monotonic) :
      Step b t (.acquire token) ((t.scripted b token now).goto token
        (.done (.error (.error (bulkheadFullError b.name b.config)))))
  -- the sleep before the next attempt takes any time
  | again {token : String} {deadline now : ℚ} (hcall : t.calls token = .requesting deadline now)
      (hscript : (t.script b token now).1 = 0)
      (hwait : ¬(b.config.maxWait.val ≤ 0 ∨ deadline ≤ t.monotonic)) :
      Step b t (.acquire token) ((t.scripted b token now).goto token (.polling deadline))
  | lost {token : String} {deadline now : ℚ} {exc : Exc}
      (hcall : t.calls token = .requesting deadline now) :
      Step b t (.lost token exc) ((t.scripted b token now).goto token (.done (.error exc)))
  | unsent {token : String} {deadline now : ℚ} {exc : Exc}
      (hcall : t.calls token = .requesting deadline now ∨ t.calls token = .polling deadline) :
      Step b t (.unsent token exc) (t.goto token (.done (.error exc)))
  | finish {token : String} {acquired : ℚ} {outcome : Except Exc Unit}
      (hcall : t.calls token = .running acquired) :
      Step b t (.finish token outcome) (t.goto token (.releasing outcome))
  | release {token : String} {outcome : Except Exc Unit}
      (hcall : t.calls token = .releasing outcome) :
      Step b t (.release token) ((t.released b token).goto token (.done outcome))
  -- an `Exception` is logged and swallowed, a cancellation is not
  | releaseLost {token : String} {outcome outcome' : Except Exc Unit}
      (hcall : t.calls token = .releasing outcome)
      (hexc : outcome' = outcome ∨ outcome' = .error .cancelled) :
      Step b t (.releaseLost token) ((t.released b token).goto token (.done outcome'))
  | releaseUnsent {token : String} {outcome outcome' : Except Exc Unit}
      (hcall : t.calls token = .releasing outcome)
      (hexc : outcome' = outcome ∨ outcome' = .error .cancelled) :
      Step b t (.releaseUnsent token) (t.goto token (.done outcome'))
  | crash {token : String} : Step b t (.crash token) (t.goto token .crashed)

/-! ## What the scripts do -/

variable {b : RedisBulkhead} {t t' : State} {a : Move} {token : String} {now : ℚ}

/-- The server after the script has reclaimed the slots that are too old. -/
def State.pruned (b : RedisBulkhead) (t : State) (now : ℚ) : Slots :=
  zremrangebyscore t.server t.clock b.key 0 (now - b.slotTtl.val)

/-- The script grants a slot if fewer than `max_concurrent` are left. -/
theorem script_eq : t.script b token now =
    if (entriesAt (t.pruned b now) t.clock b.key).length < b.config.maxConcurrent then
      (1, expireat (zadd (t.pruned b now) t.clock b.key now token) t.clock b.key
        (t.clock + (⌊b.slotTtl.val⌋ + 1 : ℤ)))
    else (0, t.pruned b now) := by
  rw [← zcard_eq_entriesAt]
  rfl

/-- What is known of a call at a time, given the slot that it holds. -/
def Phase.Sound (clock : ℚ) (slot : Option ℚ) : Phase → Prop
  | .idle | .polling _ => slot = none
  | .requesting _ now => slot = none ∧ 0 ≤ now ∧ now ≤ clock
  | .running acquired => slot = some acquired
  | _ => True

/-- What holds throughout. The slots that are found are held, and a slot that is held is found as
long as it is younger than `slot_ttl`. -/
structure Invariant (b : RedisBulkhead) (t : State) : Prop where
  clock : 0 ≤ t.clock
  past : ∀ token acquired, t.held token = some acquired → 0 ≤ acquired ∧ acquired ≤ t.clock
  calls : ∀ token, (t.calls token).Sound t.clock (t.held token)
  found : ∀ e ∈ entriesAt t.server t.clock b.key, t.held (ofLex e).2 = some (ofLex e).1
  atMost : (entriesAt t.server t.clock b.key).length ≤ b.config.maxConcurrent
  kept : ∀ token acquired time, t.held token = some acquired → t.clock ≤ time →
    time - acquired < b.slotTtl.val → toLex (acquired, token) ∈ entriesAt t.server time b.key

variable {phase : Phase}

theorem Invariant.goto (h : Invariant b t)
    (hphase : phase.Sound t.clock (t.held token)) : Invariant b (t.goto token phase) := by
  refine ⟨h.clock, h.past, fun x => ?_, h.found, h.atMost, h.kept⟩
  change (update t.calls token phase x).Sound t.clock (t.held x)
  by_cases hx : x = token
  · rwa [hx, update_self]
  · rw [update_of_ne hx]
    exact h.calls x

theorem Invariant.tick (h : Invariant b t) {clock monotonic : ℚ} (hclock : t.clock ≤ clock) :
    Invariant b { t with clock, monotonic } where
  clock := h.clock.trans hclock
  past token acquired hheld := ⟨(h.past token acquired hheld).1,
    (h.past token acquired hheld).2.trans hclock⟩
  calls token := by
    have hcall := h.calls token
    change (t.calls token).Sound clock (t.held token)
    cases hphase : t.calls token with
    | requesting deadline now =>
      rw [hphase] at hcall
      exact ⟨hcall.1, hcall.2.1, hcall.2.2.trans hclock⟩
    | idle | polling | running | releasing | done | crashed =>
      rw [hphase] at hcall
      exact hcall
  found e he := by
    rcases entriesAt_of_le (m := t.server) (k := b.key) hclock with heq | heq <;> rw [heq] at he
    · exact h.found e he
    · exact absurd he List.not_mem_nil
  atMost := by
    rcases entriesAt_of_le (m := t.server) (k := b.key) hclock with heq | heq <;> rw [heq]
    · exact h.atMost
    · exact Nat.zero_le _
  kept token acquired time hheld htime := h.kept token acquired time hheld (hclock.trans htime)

/-- A slot is not reclaimed while it is younger than `slot_ttl`. -/
theorem Invariant.mem_pruned (h : Invariant b t) (hnow : now ≤ t.clock) {x : String}
    {acquired time : ℚ} (hheld : t.held x = some acquired) (htime : t.clock ≤ time)
    (hyoung : time - acquired < b.slotTtl.val) :
    toLex (acquired, x) ∈ entriesAt (t.pruned b now) time b.key := by
  refine (mem_entriesAt_zremrangebyscore htime).mpr ⟨h.kept x acquired time hheld htime hyoung, ?_⟩
  rintro ⟨-, hold⟩
  change acquired ≤ now - b.slotTtl.val at hold
  linarith

theorem Invariant.pruned (h : Invariant b t) (hnow : now ≤ t.clock) :
    Invariant b { t with server := t.pruned b now } where
  clock := h.clock
  past := h.past
  calls := h.calls
  found e he := h.found e ((mem_entriesAt_zremrangebyscore le_rfl).mp he).1
  atMost := by
    change (entriesAt (retain _ _ _ _) t.clock _).length ≤ _
    rw [entriesAt_retain le_rfl]
    exact (List.length_filter_le ..).trans h.atMost
  kept x acquired time hheld htime hyoung := h.mem_pruned hnow hheld htime hyoung

/-- The calls after one of them has got or lost its slot. -/
theorem Invariant.sound_update (h : Invariant b t) {slot : Option ℚ}
    (hphase : phase.Sound t.clock slot) (x : String) :
    (update t.calls token phase x).Sound t.clock (update t.held token slot x) := by
  by_cases hx : x = token
  · rwa [hx, update_self, update_self]
  · rw [update_of_ne hx, update_of_ne hx]
    exact h.calls x

theorem le_expiry {acquired time : ℚ} (hacquired : acquired ≤ t.clock)
    (hyoung : time - acquired < b.slotTtl.val) :
    time ≤ t.clock + (⌊b.slotTtl.val⌋ + 1 : ℤ) := by
  have hfloor := Int.lt_floor_add_one b.slotTtl.val
  push_cast
  linarith

/-- The slot of the call is added to those that are left. -/
theorem Invariant.granted (h : Invariant b t) (hread : 0 ≤ now ∧ now ≤ t.clock)
    (hphase : phase.Sound t.clock (some now))
    (hfree : (entriesAt (t.pruned b now) t.clock b.key).length < b.config.maxConcurrent) :
    Invariant b { t with
      server := expireat (zadd (t.pruned b now) t.clock b.key now token) t.clock b.key
        (t.clock + (⌊b.slotTtl.val⌋ + 1 : ℤ))
      held := update t.held token (some now)
      calls := update t.calls token phase } := by
  have hpruned := h.pruned hread.2
  have hheld : ∀ x acquired, update t.held token (some now) x = some acquired →
      x = token ∧ acquired = now ∨ x ≠ token ∧ t.held x = some acquired := by
    intro x acquired hx
    by_cases heq : x = token
    · rw [heq, update_self] at hx
      exact Or.inl ⟨heq, (Option.some.inj hx).symm⟩
    · rw [update_of_ne heq] at hx
      exact Or.inr ⟨heq, hx⟩
  -- as long as the key is there, its entries are these
  have hentries : ∀ time, time ≤ t.clock + (⌊b.slotTtl.val⌋ + 1 : ℤ) → ∀ e,
      e ∈ entriesAt (expireat (zadd (t.pruned b now) t.clock b.key now token) t.clock b.key
        (t.clock + (⌊b.slotTtl.val⌋ + 1 : ℤ))) time b.key ↔
      e = toLex (now, token) ∨
        e ∈ entriesAt (t.pruned b now) t.clock b.key ∧ (ofLex e).2 ≠ token := by
    intro time htime e
    rw [entriesAt_zadd_expireat, if_pos htime, SortedSet.mem_add, entries_getD]
  have hclock : t.clock ≤ t.clock + (⌊b.slotTtl.val⌋ + 1 : ℤ) :=
    le_expiry le_rfl (by rw [sub_self]; exact b.slotTtl_pos)
  refine ⟨h.clock, fun x acquired hx => ?_, h.sound_update hphase, fun e he => ?_, ?_,
    fun x acquired time hx htime hyoung => ?_⟩
  · rcases hheld x acquired hx with ⟨-, rfl⟩ | ⟨-, hx⟩
    · exact hread
    · exact h.past x acquired hx
  · rcases (hentries t.clock hclock e).mp he with rfl | ⟨he, hne⟩
    · exact update_self ..
    · exact (update_of_ne hne ..).trans (hpruned.found e he)
  · change (entriesAt (expireat _ _ _ _) _ _).length ≤ _
    rw [entriesAt_zadd_expireat, if_pos hclock]
    refine le_trans SortedSet.card_add_le ?_
    change (SortedSet.entries _).length + 1 ≤ _
    rw [entries_getD]
    exact hfree
  · change toLex (acquired, x) ∈ entriesAt (expireat _ _ _ _) _ _
    rcases hheld x acquired hx with ⟨rfl, rfl⟩ | ⟨hne, hx⟩
    · exact (hentries time (le_expiry hread.2 hyoung) _).mpr (Or.inl rfl)
    · have hpast := (h.past x acquired hx).2
      refine (hentries time (le_expiry hpast hyoung) _).mpr (Or.inr ⟨?_, hne⟩)
      exact h.mem_pruned hread.2 hx le_rfl (by linarith)

/-- The slot of the call is gone, whether it was found or not. -/
theorem Invariant.released (h : Invariant b t) (hphase : phase.Sound t.clock none) :
    Invariant b ((t.released b token).goto token phase) := by
  have hheld : ∀ x acquired, update t.held token none x = some acquired →
      x ≠ token ∧ t.held x = some acquired := by
    intro x acquired hx
    by_cases heq : x = token
    · rw [heq, update_self] at hx
      cases hx
    · rw [update_of_ne heq] at hx
      exact ⟨heq, hx⟩
  refine ⟨h.clock, fun x acquired hx => h.past x acquired (hheld x acquired hx).2,
    h.sound_update hphase, fun e he => ?_, ?_, fun x acquired time hx htime hyoung => ?_⟩
  · obtain ⟨he, hne⟩ := (mem_entriesAt_zrem le_rfl).mp he
    exact (update_of_ne hne ..).trans (h.found e he)
  · change (entriesAt (retain _ _ _ _) t.clock _).length ≤ _
    rw [entriesAt_retain le_rfl]
    exact (List.length_filter_le ..).trans h.atMost
  · obtain ⟨hne, hx⟩ := hheld x acquired hx
    exact (mem_entriesAt_zrem htime).mpr ⟨h.kept x acquired time hx htime hyoung, hne⟩

theorem Invariant.scripted (h : Invariant b t) {deadline : ℚ}
    (hcall : t.calls token = .requesting deadline now)
    (hgranted : (t.script b token now).1 ≠ 0 → phase.Sound t.clock (some now))
    (hfull : (t.script b token now).1 = 0 → phase.Sound t.clock none) :
    Invariant b ((t.scripted b token now).goto token phase) := by
  have hsound := h.calls token
  rw [hcall] at hsound
  obtain ⟨hnone, hread⟩ := hsound
  unfold State.scripted
  by_cases hfree :
      (entriesAt (t.pruned b now) t.clock b.key).length < b.config.maxConcurrent
  · rw [script_eq, if_pos hfree] at hgranted ⊢
    exact h.granted hread (hgranted one_ne_zero) hfree
  · rw [script_eq, if_neg hfree] at hfull ⊢
    refine (h.pruned hread.2).goto ?_
    change phase.Sound t.clock (t.held token)
    rw [hnone]
    exact hfull rfl

theorem Invariant.step (h : Invariant b t) (hstep : Step b t a t') : Invariant b t' := by
  cases hstep with
  | tick hclock => exact h.tick hclock
  | @start token hcall =>
    have hsound := h.calls token
    rw [hcall] at hsound
    exact h.goto hsound
  | @read token deadline hcall =>
    have hsound := h.calls token
    rw [hcall] at hsound
    exact h.goto ⟨hsound, h.clock, le_rfl⟩
  | granted hcall hscript =>
    exact h.scripted hcall (fun _ => rfl) fun hzero => absurd hzero hscript
  | full hcall => exact h.scripted hcall (fun _ => trivial) fun _ => trivial
  | again hcall hscript => exact h.scripted hcall (fun hne => absurd hscript hne) fun _ => rfl
  | lost hcall => exact h.scripted hcall (fun _ => trivial) fun _ => trivial
  | unsent => exact h.goto trivial
  | finish => exact h.goto trivial
  | release => exact h.released trivial
  | releaseLost => exact h.released trivial
  | releaseUnsent => exact h.goto trivial
  | crash => exact h.goto trivial

theorem invariant_of_run {clock : ℚ} {l : List Move} (hclock : 0 ≤ clock)
    (hrun : Run (Step b) { clock } l t) : Invariant b t :=
  hrun.invariant (fun _ _ _ _ hstep h => h.step hstep)
    { clock := hclock
      past := fun _ _ h => by cases h
      calls := fun _ => rfl
      found := fun _ h => absurd h List.not_mem_nil
      atMost := Nat.zero_le _
      kept := fun _ _ _ h => by cases h }

/-! ## Concurrency is bounded -/

/-- Calls whose slots are younger than `slot_ttl` are in the set. -/
theorem Invariant.length_le (h : Invariant b t) {tokens : List String} (hnodup : tokens.Nodup)
    (hheld : ∀ x ∈ tokens, ∃ acquired, t.held x = some acquired ∧
      t.clock - acquired < b.slotTtl.val) : tokens.length ≤ b.config.maxConcurrent := by
  have hsubset : tokens ⊆ (entriesAt t.server t.clock b.key).map fun e => (ofLex e).2 := by
    intro x hx
    obtain ⟨acquired, hx, hyoung⟩ := hheld x hx
    exact List.mem_map.mpr ⟨_, h.kept x acquired t.clock hx le_rfl hyoung, rfl⟩
  have hle := (List.subperm_of_subset hnodup hsubset).length_le
  rw [List.length_map] at hle
  exact hle.trans h.atMost

/-- The slots that are left after the script has reclaimed the old ones are held, and young. -/
theorem Invariant.young_of_mem_pruned (h : Invariant b t) {e : ℚ ×ₗ String}
    (he : e ∈ entriesAt (t.pruned b now) t.clock b.key) :
    t.held (ofLex e).2 = some (ofLex e).1 ∧ now - (ofLex e).1 < b.slotTtl.val := by
  obtain ⟨he, hkept⟩ := (mem_entriesAt_zremrangebyscore le_rfl).mp he
  have hheld := h.found e he
  refine ⟨hheld, ?_⟩
  have hpast := (h.past _ _ hheld).1
  by_contra hold
  exact hkept ⟨hpast, by linarith⟩

def oneSlot : RedisBulkhead where
  config := ⟨1, ⟨0, "0.0"⟩, Nat.one_pos, le_rfl⟩
  channelPrefix := "varco:"
  slotTtl := ⟨60, "60.0"⟩
  name := "db"
  slotTtl_pos := by norm_num

end RedisBulkhead

end Varco
