import Varco.Foundations.Machine
import Varco.Idempotency.Memory
import Varco.Idempotency.Redis

/-!
# One idempotency store

`IdempotencyLedger` is what a store is for, after the contract of `AbstractIdempotencyStore`: a key
is free, reserved or completed, for as long as the reservation lasts, and a completed key is not
released. `Proper` are the calls that stay within the contract: a completion comes while the
reservation lasts, a release does not come after the completion, and a time to live is a whole
number of milliseconds. At the instant at which a reservation expires Redis still has its key, and
no call comes.

On every run of such calls the in-memory store and the Redis store answer as the ledger does
(`stores_refine_ledger`), each by a simulation over what is visible in it at a time. Outside, they
part: `stores_disagree`.
-/

namespace Varco

open Option

/-- A key that is in use. -/
structure Cell where
  expiry : ℚ
  record : Option IdempotencyRecord := none

def Cell.step (now : ℚ) (cell : Option Cell) :
    IdempotencyCall → Except PyException IdempotencyAnswer × Option Cell
  | .reserve _ _ ttl =>
    if ttl.val ≤ 0 then (.error (ttlError ttl), cell)
    else
      match cell with
      | none => (.ok (.outcome .acquired), some { expiry := now + ttl.val })
      | some c => (.ok (.outcome (if c.record.isSome then .replay else .inFlight)), some c)
  | .complete _ record => (.ok .done, cell.map fun c => { c with record := some record })
  | .get _ => (.ok (.record (cell.bind Cell.record)), cell)
  | .release _ => (.ok .done, cell.filter fun c => c.record.isSome)

/-- A key that is in use after a call was in use before, and lasts as long; or the call has acquired
it. -/
theorem Cell.step_cases {now : ℚ} {cell : Option Cell} {call : IdempotencyCall} {c : Cell}
    (h : (Cell.step now cell call).2 = some c) :
    (∃ c', cell = some c' ∧ c.expiry = c'.expiry ∧
      (Cell.step now cell call).1 ≠ .ok (.outcome .acquired)) ∨
    ∃ key fp ttl, call = .reserve key fp ttl ∧ 0 < ttl.val ∧ c.expiry = now + ttl.val ∧
      (Cell.step now cell call).1 = .ok (.outcome .acquired) := by
  cases call with
  | reserve key fp ttl =>
    unfold Cell.step at h ⊢
    by_cases httl : ttl.val ≤ 0
    · simp only [if_pos httl] at h ⊢
      exact Or.inl ⟨c, h, rfl, by simp⟩
    · simp only [if_neg httl] at h ⊢
      cases cell with
      | none =>
        cases h
        exact Or.inr ⟨key, fp, ttl, rfl, not_le.mp httl, rfl, rfl⟩
      | some c' =>
        cases h
        refine Or.inl ⟨c, rfl, rfl, ?_⟩
        cases hr : c.record <;> simp [hr]
  | complete key record =>
    obtain ⟨c', rfl, rfl⟩ := map_eq_some_iff.mp h
    exact Or.inl ⟨c', rfl, rfl, by simp [Cell.step]⟩
  | get key => exact Or.inl ⟨c, h, rfl, by simp [Cell.step]⟩
  | release key =>
    have hc : cell = some c := (filter_eq_some_iff.mp h).1
    exact Or.inl ⟨c, hc, rfl, by simp [Cell.step]⟩

/-- The keys in use, and the time of the last call. -/
structure IdempotencyLedger where
  clock : ℚ
  cells : String → Option Cell := fun _ => none

namespace IdempotencyLedger

def within (s : IdempotencyLedger) (p : ℚ → Bool) (key : String) : Option Cell :=
  (s.cells key).filter (p ·.expiry)

def live (s : IdempotencyLedger) (t : ℚ) (key : String) : Option Cell := s.within (t < ·) key

/-- One call at the time `i.1`. -/
def exec (i : ℚ × IdempotencyCall) (s : IdempotencyLedger) :
    Except PyException IdempotencyAnswer × IdempotencyLedger :=
  let out := Cell.step i.1 (s.live i.1 i.2.key) i.2
  (out.1, ⟨i.1, Function.update s.cells i.2.key out.2⟩)

/-- The call stays within the contract, and the clock does not go back. -/
def Proper (s : IdempotencyLedger) (i : ℚ × IdempotencyCall) : Prop :=
  s.clock ≤ i.1 ∧ (∀ c, s.cells i.2.key = some c → c.expiry ≠ i.1) ∧
    match i.2 with
    | .reserve _ _ ttl => ttl.val ≤ 0 ∨ ∃ n : ℕ, 0 < n ∧ ttl.val * 1000 = n
    | .complete key _ => s.live i.1 key ≠ none
    | .get _ => True
    | .release key => ∀ c, s.live i.1 key = some c → c.record = none

variable {s : IdempotencyLedger} {t t' : ℚ} {key : String} {call : IdempotencyCall}
  {p p' : ℚ → Bool} {c : Cell}

theorem within_of_imp (h : ∀ e, p' e = true → p e = true) (key : String) :
    s.within p' key = (s.within p key).filter (p' ·.expiry) := by
  unfold within
  cases s.cells key with
  | none => rfl
  | some c =>
    by_cases hl : p' c.expiry = true
    · simp [Option.filter, hl, h _ hl]
    · by_cases hn : p c.expiry = true <;> simp [Option.filter, hl, hn]

/-- Off the instants at which it expires, a key lasts as long in both stores. -/
theorem within_le_eq_live (h : ∀ c, s.cells key = some c → c.expiry ≠ t) :
    s.within (t ≤ ·) key = s.live t key := by
  unfold live within
  cases hk : s.cells key with
  | none => rfl
  | some c => simp [Option.filter, le_iff_lt_or_eq, (h c hk).symm]

theorem lt_expiry (h : s.live t key = some c) : t < c.expiry := by
  unfold live within at h
  simpa using (filter_eq_some_iff.mp h).2

theorem lt_expiry_of_step
    (h : (Cell.step t (s.live t call.key) call).2 = some c) : t < c.expiry := by
  rcases Cell.step_cases h with ⟨c', hc', hexp, -⟩ | ⟨key, fp, ttl, -, hpos, hexp, -⟩
  · rw [hexp]
    exact lt_expiry hc'
  · rw [hexp]
    linarith

theorem cells_exec_self (s : IdempotencyLedger) (i : ℚ × IdempotencyCall) :
    (s.exec i).2.cells i.2.key = (Cell.step i.1 (s.live i.1 i.2.key) i.2).2 := by
  simp [exec]

theorem cells_exec_ne {i : ℚ × IdempotencyCall} (h : key ≠ i.2.key) :
    (s.exec i).2.cells key = s.cells key := by
  simp [exec, Function.update_of_ne h]

theorem within_exec_self (i : ℚ × IdempotencyCall) (h : ∀ e, i.1 < e → p e = true) :
    (s.exec i).2.within p i.2.key = (Cell.step i.1 (s.live i.1 i.2.key) i.2).2 := by
  unfold within
  rw [cells_exec_self]
  cases hc : (Cell.step i.1 (s.live i.1 i.2.key) i.2).2 with
  | none => rfl
  | some c => simp [Option.filter, h _ (lt_expiry_of_step hc)]

theorem within_exec_ne {i : ℚ × IdempotencyCall} (h : key ≠ i.2.key) :
    (s.exec i).2.within p key = s.within p key := by
  unfold within
  rw [cells_exec_ne h]

/-- A release that stays within the contract leaves the key free. -/
theorem release_of_proper (h : s.Proper (t, .release key)) :
    (s.live t key).filter (fun c => c.record.isSome) = none := by
  cases hl : s.live t key with
  | none => rfl
  | some c => simp [Option.filter, h.2.2 c hl]

end IdempotencyLedger

/-! ## What is visible -/

abbrev Visible := Option ℚ × Option IdempotencyRecord

def Cell.visible (c : Cell) : Visible := (some c.expiry, c.record)

/-- The keys `view` that are visible in a store are those of the ledger within `p`. -/
def Matches (view : String → Option Visible) (s : IdempotencyLedger) (p : ℚ → Bool) : Prop :=
  ∀ key, view key = (s.within p key).map Cell.visible

/-- What has not expired. -/
def Visible.isLive (p : ℚ → Bool) (v : Visible) : Bool := v.1.all p

variable {s : IdempotencyLedger} {t t' : ℚ} {key : String} {p p' : ℚ → Bool}

/-- What is visible in both stays the same as time passes. -/
theorem Matches.of_imp {view view' : String → Option Visible} (h : Matches view s p)
    (hp : ∀ e, p' e = true → p e = true)
    (hview : ∀ key, view' key = (view key).filter (Visible.isLive p')) : Matches view' s p' := by
  intro key
  rw [hview, h key, IdempotencyLedger.within_of_imp hp]
  cases s.within p key with
  | none => rfl
  | some c =>
    by_cases hc : p' c.expiry = true <;>
      simp [Option.filter, Cell.visible, Visible.isLive, hc]

variable {i : ℚ × IdempotencyCall}

/-- A call changes what is visible of its key only, and as the ledger does. -/
theorem Matches.exec {view view' : String → Option Visible}
    (h : Matches view s p) (hp : ∀ e, i.1 < e → p e = true)
    (hother : ∀ key, key ≠ i.2.key → view' key = view key)
    (hself : view' i.2.key = (Cell.step i.1 (s.live i.1 i.2.key) i.2).2.map Cell.visible) :
    Matches view' (s.exec i).2 p := by
  intro key
  by_cases hk : key = i.2.key
  · rw [hk, IdempotencyLedger.within_exec_self i hp, hself]
  · rw [IdempotencyLedger.within_exec_ne hk, hother key hk, h key]

/-! ## The in-memory store -/

namespace InMemoryIdempotencyStore

variable {m : InMemoryIdempotencyStore} {e : MemoryEntry} {key' : String} {c : Cell}

def visible (m : InMemoryIdempotencyStore) (t : ℚ) (key : String) : Option Visible :=
  ((m.entries.get? key).filter fun e => !e.isExpired t).map fun e => (some e.expiresAt, e.record)

theorem visible_of_le (h : t ≤ t') (key : String) :
    m.visible t' key = (m.visible t key).filter (Visible.isLive (t' < ·)) := by
  unfold visible
  cases m.entries.get? key with
  | none => rfl
  | some e =>
    by_cases hl : t' < e.expiresAt
    · have hn : t < e.expiresAt := lt_of_le_of_lt h hl
      simp [Option.filter, MemoryEntry.isExpired, Visible.isLive, hl, hn]
    · by_cases hn : t < e.expiresAt
      · simp [Option.filter, MemoryEntry.isExpired, Visible.isLive, hl, hn]
      · simp [Option.filter, MemoryEntry.isExpired, hl, hn]

theorem visible_set_self (d : Dict String MemoryEntry) (h : t < e.expiresAt) :
    visible ⟨d.set key e⟩ t key = some (some e.expiresAt, e.record) := by
  simp [visible, Option.filter, MemoryEntry.isExpired, h]

theorem visible_set_ne (d : Dict String MemoryEntry) (h : key' ≠ key) :
    visible ⟨d.set key e⟩ t key' = visible ⟨d⟩ t key' := by
  simp [visible, Dict.get?_set, h]

theorem visible_erase_self (d : Dict String MemoryEntry) : visible ⟨d.erase key⟩ t key = none := by
  simp [visible]

theorem visible_erase_ne (d : Dict String MemoryEntry) (h : key' ≠ key) :
    visible ⟨d.erase key⟩ t key' = visible ⟨d⟩ t key' := by
  simp [visible, Dict.get?_erase, h]

theorem entry_of_visible (h : m.visible t key = some c.visible) :
    ∃ e, m.entries.get? key = some e ∧ t < e.expiresAt ∧ e.expiresAt = c.expiry ∧
      e.record = c.record := by
  unfold visible at h
  cases hk : m.entries.get? key with
  | none => simp [hk] at h
  | some e =>
    by_cases hl : t < e.expiresAt
    · simp [hk, Option.filter, MemoryEntry.isExpired, hl, Cell.visible] at h
      exact ⟨e, rfl, hl, h.1, h.2⟩
    · simp [hk, Option.filter, MemoryEntry.isExpired, hl] at h

/-- A key that is not visible has no entry, or one that has expired. -/
theorem expired_of_not_visible (h : m.visible t key = none) (hk : m.entries.get? key = some e) :
    e.isExpired t = true := by
  simpa [visible, hk, Option.filter] using h

theorem get?_dropExpired (h : m.visible t key = none) :
    (m.dropExpired t key).entries.get? key = none := by
  unfold dropExpired
  cases hk : m.entries.get? key with
  | none => exact hk
  | some e =>
    simp [expired_of_not_visible h hk]

theorem dropExpired_eq (hk : m.entries.get? key = some e) (hl : t < e.expiresAt) :
    m.dropExpired t key = m := by
  simp [dropExpired, hk, MemoryEntry.isExpired, hl]

theorem visible_dropExpired_ne (h : key' ≠ key) :
    (m.dropExpired t key).visible t key' = m.visible t key' := by
  unfold dropExpired
  split
  · rfl
  · split_ifs
    · exact visible_erase_ne m.entries h
    · rfl

section

variable (hk : m.visible t key = (s.live t key).map Cell.visible)

include hk

theorem reserve_matches {fp : String} {ttl : PyFloat} :
    ((m.reserve t key fp ttl).1.map .outcome : Except PyException IdempotencyAnswer) =
        (Cell.step t (s.live t key) (.reserve key fp ttl)).1 ∧
      (m.reserve t key fp ttl).2.visible t key =
        (Cell.step t (s.live t key) (.reserve key fp ttl)).2.map Cell.visible ∧
      ∀ key', key' ≠ key → (m.reserve t key fp ttl).2.visible t key' = m.visible t key' := by
  unfold reserve Cell.step
  by_cases httl : ttl.val ≤ 0
  · simp only [if_pos httl]
    exact ⟨rfl, hk, fun _ _ => trivial⟩
  · simp only [if_neg httl]
    cases hl : s.live t key with
    | none =>
      rw [hl] at hk
      simp only [get?_dropExpired hk]
      have hlt : t < t + ttl.val := by linarith
      refine ⟨rfl, visible_set_self _ hlt, fun key' hne => ?_⟩
      rw [visible_set_ne _ hne]
      exact visible_dropExpired_ne hne
    | some c =>
      rw [hl] at hk
      obtain ⟨e, he, hlt, -, hrec⟩ := entry_of_visible hk
      simp only [dropExpired_eq he hlt, he, hrec]
      exact ⟨rfl, hk, fun _ _ => trivial⟩

theorem complete_matches {record : IdempotencyRecord} (hlive : s.live t key ≠ none) :
    (m.complete t key record).visible t key =
        ((s.live t key).map fun c => { c with record := some record }).map Cell.visible ∧
      ∀ key', key' ≠ key → (m.complete t key record).visible t key' = m.visible t key' := by
  obtain ⟨c, hc⟩ := ne_none_iff_exists'.mp hlive
  rw [hc] at hk
  obtain ⟨e, he, hlt, hexp, -⟩ := entry_of_visible hk
  unfold complete
  simp only [he, getD_some, hc, map_some, Cell.visible]
  refine ⟨?_, fun key' hne => visible_set_ne _ hne⟩
  rw [← hexp]
  exact visible_set_self _ hlt

theorem get_matches : m.get t key = (s.live t key).bind Cell.record := by
  unfold get
  cases hl : s.live t key with
  | none =>
    rw [hl] at hk
    cases he : m.entries.get? key with
    | none => rfl
    | some e => simp [expired_of_not_visible hk he]
  | some c =>
    rw [hl] at hk
    obtain ⟨e, he, hlt, -, hrec⟩ := entry_of_visible hk
    simp [he, MemoryEntry.isExpired, hlt, hrec]

end

/-- **A call that stays within the contract is answered as by the ledger.** -/
theorem exec_matches (h : Matches (m.visible i.1) s (i.1 < ·))
    (hp : s.Proper i) :
    (m.exec i).1 = (s.exec i).1 ∧ Matches ((m.exec i).2.visible i.1) (s.exec i).2 (i.1 < ·) := by
  obtain ⟨t, call⟩ := i
  have hlast : ∀ e, t < e → decide (t < e) = true := fun _ => decide_eq_true
  cases call with
  | reserve key fp ttl =>
    obtain ⟨hans, hself, hother⟩ := reserve_matches (h key)
    exact ⟨hans, h.exec hlast hother hself⟩
  | complete key record =>
    obtain ⟨hself, hother⟩ := complete_matches (h key) hp.2.2
    exact ⟨rfl, h.exec hlast hother hself⟩
  | get key =>
    exact ⟨congrArg _ (congrArg _ (get_matches (h key))), h.exec hlast (fun _ _ => rfl) (h key)⟩
  | release key =>
    refine ⟨rfl, h.exec hlast (fun _ hne => visible_erase_ne m.entries hne) ?_⟩
    change visible ⟨m.entries.erase key⟩ t key = ((s.live t key).filter _).map _
    rw [visible_erase_self, IdempotencyLedger.release_of_proper hp]
    rfl

end InMemoryIdempotencyStore

/-! ## The Redis store -/

namespace RedisIdempotencyStore

variable {store : RedisIdempotencyStore} {m : Server} {key' : String} {c : Cell}

theorem redisKey_ne (h : key' ≠ key) : store.redisKey key' ≠ store.redisKey key := by
  intro he
  apply h
  have hlist := congrArg String.toList he
  simp only [redisKey, String.toList_append, List.append_cancel_left_eq] at hlist
  exact String.toList_injective hlist

def visibleEntry (entry : Envelope × Option ℚ) : Visible := (entry.2, entry.1.record)

def visible (store : RedisIdempotencyStore) (m : Server) (t : ℚ) (key : String) : Option Visible :=
  (m.live t (store.redisKey key)).map visibleEntry

theorem visible_of_le (h : t ≤ t') (key : String) :
    store.visible m t' key = (store.visible m t key).filter (Visible.isLive (t' ≤ ·)) := by
  unfold visible
  rw [Expiring.live_of_le h]
  cases m.live t (store.redisKey key) with
  | none => rfl
  | some entry =>
    have hlive : Visible.isLive (t' ≤ ·) (visibleEntry entry) = Expiring.isLive t' entry := rfl
    by_cases hl : Expiring.isLive t' entry = true
    · simp [Option.filter, hl, hlive]
    · simp [Option.filter, hl, hlive]

theorem visible_put_ne {entry : Envelope × Option ℚ} (h : key' ≠ key) :
    store.visible (m.put (store.redisKey key) entry) t key' = store.visible m t key' := by
  unfold visible
  rw [Expiring.live_put_ne (redisKey_ne h)]

theorem live_of_visible (h : store.visible m t key = some c.visible) :
    ∃ env, m.live t (store.redisKey key) = some (env, some c.expiry) ∧ env.record = c.record := by
  unfold visible at h
  cases hl : m.live t (store.redisKey key) with
  | none => simp [hl] at h
  | some entry =>
    rw [hl] at h
    obtain ⟨env, expiry⟩ := entry
    simp only [map_some, visibleEntry, Cell.visible, Option.some.injEq, Prod.mk.injEq] at h
    exact ⟨env, by rw [h.1], h.2⟩

theorem live_of_not_visible (h : store.visible m t key = none) :
    m.live t (store.redisKey key) = none := by
  simpa [visible] using h

theorem px_of_millis {ttl : PyFloat} {n : ℕ} (hn : ttl.val * 1000 = n) :
    px ttl = n ∧ (px ttl : ℚ) / 1000 = ttl.val := by
  have hpx : px ttl = n := by
    unfold px
    rw [hn]
    exact Int.floor_natCast n
  refine ⟨hpx, ?_⟩
  rw [hpx, Int.cast_natCast, ← hn]
  ring

section

variable (hk : store.visible m t key = (s.live t key).map Cell.visible)

include hk

theorem reserve_matches {fp : String} {ttl : PyFloat}
    (hp : ttl.val ≤ 0 ∨ ∃ n : ℕ, 0 < n ∧ ttl.val * 1000 = n) :
    ((store.reserve m t key fp ttl).1.map .outcome : Except PyException IdempotencyAnswer) =
        (Cell.step t (s.live t key) (.reserve key fp ttl)).1 ∧
      store.visible (store.reserve m t key fp ttl).2 t key =
        (Cell.step t (s.live t key) (.reserve key fp ttl)).2.map Cell.visible ∧
      ∀ key', key' ≠ key →
        store.visible (store.reserve m t key fp ttl).2 t key' = store.visible m t key' := by
  unfold reserve Cell.step
  by_cases httl : ttl.val ≤ 0
  · simp only [if_pos httl]
    exact ⟨rfl, hk, fun _ _ => trivial⟩
  · obtain ⟨n, hpos, hn⟩ := hp.resolve_left httl
    obtain ⟨hpx, hsec⟩ := px_of_millis hn
    have hnot : ¬px ttl ≤ 0 := by
      rw [hpx]
      omega
    simp only [if_neg httl, if_neg hnot, hsec]
    cases hl : s.live t key with
    | none =>
      rw [hl] at hk
      have hlive := live_of_not_visible hk
      simp only [Expiring.setNx, hlive]
      refine ⟨rfl, ?_, fun key' hne => visible_put_ne hne⟩
      have hlt : t < t + ttl.val := by linarith
      unfold visible
      rw [Expiring.live_put_self (by simpa [Expiring.isLive] using hlt.le)]
      rfl
    | some c =>
      rw [hl] at hk
      obtain ⟨env, hlive, hrec⟩ := live_of_visible hk
      simp only [Expiring.setNx, hlive, Expiring.get, map_some]
      cases env with
      | reserved fp' =>
        refine ⟨?_, hk, fun _ _ => rfl⟩
        rw [← hrec]
        rfl
      | completed record =>
        refine ⟨?_, hk, fun _ _ => rfl⟩
        rw [← hrec]
        rfl

theorem complete_matches {record : IdempotencyRecord} (hlive : s.live t key ≠ none) :
    store.visible (store.complete m t key record) t key =
        ((s.live t key).map fun c => { c with record := some record }).map Cell.visible ∧
      ∀ key', key' ≠ key →
        store.visible (store.complete m t key record) t key' = store.visible m t key' := by
  obtain ⟨c, hc⟩ := ne_none_iff_exists'.mp hlive
  rw [hc] at hk
  obtain ⟨env, henv, -⟩ := live_of_visible hk
  have hlt := IdempotencyLedger.lt_expiry hc
  unfold complete Expiring.setKeepTtl
  refine ⟨?_, fun key' hne => visible_put_ne hne⟩
  unfold visible
  rw [henv, hc, Expiring.live_put_self (by simpa [Expiring.isLive] using hlt.le)]
  rfl

theorem get_matches : store.get m t key = (s.live t key).bind Cell.record := by
  unfold get Expiring.get
  cases hl : s.live t key with
  | none =>
    rw [hl] at hk
    rw [live_of_not_visible hk]
    rfl
  | some c =>
    rw [hl] at hk
    obtain ⟨env, henv, hrec⟩ := live_of_visible hk
    rw [henv]
    exact hrec

end

theorem visible_release : store.visible (store.release m key) t key = none := by
  unfold visible release
  rw [Expiring.live_del_self]
  rfl

theorem visible_release_ne (h : key' ≠ key) :
    store.visible (store.release m key) t key' = store.visible m t key' := by
  unfold visible release
  rw [Expiring.live_del_ne (redisKey_ne h)]

/-- **A call that stays within the contract is answered as by the ledger.** -/
theorem exec_matches (h : Matches (store.visible m i.1) s (i.1 ≤ ·))
    (hp : s.Proper i) :
    (store.exec i m).1 = (s.exec i).1 ∧
      Matches (store.visible (store.exec i m).2 i.1) (s.exec i).2 (i.1 ≤ ·) := by
  obtain ⟨t, call⟩ := i
  have hlast : ∀ e, t < e → decide (t ≤ e) = true := fun _ hlt => decide_eq_true hlt.le
  have hk := h call.key
  rw [IdempotencyLedger.within_le_eq_live hp.2.1] at hk
  cases call with
  | reserve key fp ttl =>
    obtain ⟨hans, hself, hother⟩ := reserve_matches hk hp.2.2
    exact ⟨hans, h.exec hlast hother hself⟩
  | complete key record =>
    obtain ⟨hself, hother⟩ := complete_matches hk hp.2.2
    exact ⟨rfl, h.exec hlast hother hself⟩
  | get key =>
    exact ⟨congrArg _ (congrArg _ (get_matches hk)), h.exec hlast (fun _ _ => rfl) hk⟩
  | release key =>
    refine ⟨rfl, h.exec hlast (fun _ hne => visible_release_ne hne) ?_⟩
    change store.visible (store.release m key) t key = ((s.live t key).filter _).map _
    rw [visible_release, IdempotencyLedger.release_of_proper hp]
    rfl

end RedisIdempotencyStore

/-- In the run `pre`, the reservation of `key` that was acquired last is from `t₁`, for `ttl`. -/
def CreatedBy {σ : Type}
    (exec : ℚ × IdempotencyCall → σ → Except PyException IdempotencyAnswer × σ) (m : σ)
    (key : String) (pre : List (ℚ × IdempotencyCall)) (t₁ : ℚ) (ttl : PyFloat) : Prop :=
  ∃ pre₁ fp pre₂, pre = pre₁ ++ (t₁, IdempotencyCall.reserve key fp ttl) :: pre₂ ∧
    (exec (t₁, .reserve key fp ttl) (Machine.final exec m pre₁)).1 = .ok (.outcome .acquired) ∧
    ∀ q₁ (i : ℚ × IdempotencyCall) q₂, pre₂ = q₁ ++ i :: q₂ → i.2.key = key →
      (exec i (Machine.final exec m (pre₁ ++ (t₁, .reserve key fp ttl) :: q₁))).1 ≠
        .ok (.outcome .acquired)

/-- The promises about responses: one is visible only within the time to live of the reservation
behind it, and a release does not remove it. -/
structure KeepsResponses {σ : Type}
    (exec : ℚ × IdempotencyCall → σ → Except PyException IdempotencyAnswer × σ) (m : σ)
    (calls : List (ℚ × IdempotencyCall)) : Prop where
  visible : ∀ pre t key post r, calls = pre ++ (t, IdempotencyCall.get key) :: post →
    (exec (t, .get key) (Machine.final exec m pre)).1 = .ok (.record (some r)) →
      ∃ t₁ ttl, CreatedBy exec m key pre t₁ ttl ∧ t < t₁ + ttl.val
  release : ∀ pre t key post r, calls = pre ++ (t, IdempotencyCall.release key) :: post →
    (exec (t, .get key) (Machine.final exec m pre)).1 = .ok (.record (some r)) →
      (exec (t, .get key) (exec (t, .release key) (Machine.final exec m pre)).2).1 =
        .ok (.record (some r))

open IdempotencyLedger in
/-- In the ledger, a cell lasts as long as the reservation that made it. -/
theorem createdBy_of_cell {t₀ : ℚ} {calls : List (ℚ × IdempotencyCall)} {c : Cell}
    (hc : (Machine.final exec ⟨t₀, fun _ => none⟩ calls).cells key = some c) :
    ∃ t₁ ttl, CreatedBy exec ⟨t₀, fun _ => none⟩ key calls t₁ ttl ∧ c.expiry = t₁ + ttl.val := by
  induction calls using List.reverseRecOn generalizing c with
  | nil => cases hc
  | append_singleton calls i ih =>
    rw [Machine.final_append] at hc
    change ((Machine.final exec ⟨t₀, fun _ => none⟩ calls).exec i).2.cells key = some c at hc
    generalize hs : Machine.final exec ⟨t₀, fun _ => none⟩ calls = s at hc ih
    -- a cell that was there before, if this call has not acquired the key
    have hkeep : ∀ c', s.cells key = some c' → c.expiry = c'.expiry →
        (i.2.key = key → (s.exec i).1 ≠ .ok (.outcome .acquired)) →
        ∃ t₁ ttl, CreatedBy exec ⟨t₀, fun _ => none⟩ key (calls ++ [i]) t₁ ttl ∧
          c.expiry = t₁ + ttl.val := by
      intro c' hc' hexp hnot
      obtain ⟨t₁, ttl, ⟨pre₁, fp, pre₂, rfl, hacq, hlater⟩, hexp'⟩ := ih hc'
      refine ⟨t₁, ttl, ⟨pre₁, fp, pre₂ ++ [i], by simp, hacq, ?_⟩, hexp.trans hexp'⟩
      intro q₁ j q₂ hq hj
      rcases List.eq_nil_or_concat q₂ with rfl | ⟨q₂, b, rfl⟩
      · obtain ⟨rfl, hij⟩ := List.append_inj' hq rfl
        cases List.singleton_inj.mp hij
        rw [hs]
        exact hnot hj
      · rw [List.concat_eq_append, ← List.cons_append, ← List.append_assoc] at hq
        obtain ⟨rfl, -⟩ := List.append_inj' hq rfl
        exact hlater q₁ j q₂ rfl hj
    by_cases hk : key = i.2.key
    · have hcell : (Cell.step i.1 (s.live i.1 key) i.2).2 = some c := by
        rw [hk] at hc ⊢
        exact (cells_exec_self s i).symm.trans hc
      have hans : (s.exec i).1 = (Cell.step i.1 (s.live i.1 key) i.2).1 := by
        rw [hk]
        rfl
      rcases Cell.step_cases hcell with
        ⟨c', hc', hexp, hnot⟩ | ⟨key', fp, ttl, hcall, -, hexp, hacq⟩
      · have hstored : s.cells key = some c' := (filter_eq_some_iff.mp hc').1
        exact hkeep c' hstored hexp fun _ => hans ▸ hnot
      · obtain ⟨t, call⟩ := i
        cases hcall
        cases hk
        refine ⟨t, ttl, ⟨calls, fp, [], rfl, ?_, fun q₁ j q₂ hq => ?_⟩, hexp⟩
        · rw [hs]
          exact hans.trans hacq
        · simp at hq
    · have hstored : s.cells key = some c := (cells_exec_ne hk).symm.trans hc
      exact hkeep c hstored rfl fun he => absurd he.symm hk

section

variable {σ : Type} {exec : ℚ × IdempotencyCall → σ → Except PyException IdempotencyAnswer × σ}
  {R : σ → IdempotencyLedger → Prop} {m : σ} {t₀ : ℚ} {calls : List (ℚ × IdempotencyCall)}
  (hstep : ∀ m s i, R m s → s.Proper i →
    (exec i m).1 = (IdempotencyLedger.exec i s).1 ∧ R (exec i m).2 (IdempotencyLedger.exec i s).2)
include hstep

/-- At every point of the run, a store answers a proper call as the ledger does. -/
theorem answer_eq {pre post : List (ℚ × IdempotencyCall)}
    (h : R m ⟨t₀, fun _ => none⟩)
    (hok : Machine.Along IdempotencyLedger.exec IdempotencyLedger.Proper ⟨t₀, fun _ => none⟩
      (pre ++ post))
    (hp : (Machine.final IdempotencyLedger.exec ⟨t₀, fun _ => none⟩ pre).Proper i) :
    (exec i (Machine.final exec m pre)).1 =
      (IdempotencyLedger.exec i (Machine.final IdempotencyLedger.exec ⟨t₀, fun _ => none⟩ pre)).1 :=
  (hstep _ _ i (Machine.final_rel hstep h hok.left) hp).1

/-- **A store that simulates the ledger keeps the promises about responses**, on proper runs. -/
theorem keepsResponses_of_simulation (h : R m ⟨t₀, fun _ => none⟩)
    (hok : Machine.Along IdempotencyLedger.exec IdempotencyLedger.Proper ⟨t₀, fun _ => none⟩
      calls) :
    KeepsResponses exec m calls := by
  constructor
  · rintro pre t key post r rfl hget
    have hproper := hok pre (t, .get key) post rfl
    rw [answer_eq hstep h hok hproper] at hget
    -- the cell in the ledger, and the reservation behind it
    have hrecord : ((Machine.final IdempotencyLedger.exec ⟨t₀, fun _ => none⟩ pre).live t key).bind
        Cell.record = some r := IdempotencyAnswer.record.inj (Except.ok.inj hget)
    obtain ⟨c, hc, -⟩ := bind_eq_some_iff.mp hrecord
    have hcell := (filter_eq_some_iff.mp hc).1
    obtain ⟨t₁, ttl, ⟨pre₁, fp, pre₂, rfl, hacq, hlater⟩, hexp⟩ := createdBy_of_cell hcell
    refine ⟨t₁, ttl, ⟨pre₁, fp, pre₂, rfl, ?_, ?_⟩, ?_⟩
    · rw [List.append_assoc] at hok
      rw [answer_eq hstep h hok (hok pre₁ _ _ rfl)]
      exact hacq
    · rintro q₁ j q₂ rfl hj
      have hsplit : pre₁ ++ (t₁, .reserve key fp ttl) :: (q₁ ++ j :: q₂) ++ (t, .get key) :: post =
          (pre₁ ++ (t₁, .reserve key fp ttl) :: q₁) ++ (j :: q₂ ++ (t, .get key) :: post) := by simp
      rw [hsplit] at hok
      rw [answer_eq hstep h hok (hok _ j _ rfl)]
      exact hlater q₁ j q₂ rfl hj
    · rw [← hexp]
      exact IdempotencyLedger.lt_expiry hc
  · rintro pre t key post r rfl hget
    -- a key with a response is not released
    have hproper := hok pre (t, .release key) post rfl
    have hread : (Machine.final IdempotencyLedger.exec ⟨t₀, fun _ => none⟩ pre).Proper
        (t, .get key) := ⟨hproper.1, hproper.2.1, trivial⟩
    rw [answer_eq hstep h hok hread] at hget
    have hrecord : ((Machine.final IdempotencyLedger.exec ⟨t₀, fun _ => none⟩ pre).live t key).bind
        Cell.record = some r := IdempotencyAnswer.record.inj (Except.ok.inj hget)
    obtain ⟨c, hc, hr⟩ := bind_eq_some_iff.mp hrecord
    cases (hproper.2.2 c hc).symm.trans hr

end

variable {t₀ : ℚ} {calls : List (ℚ × IdempotencyCall)}

theorem memory_step (m : InMemoryIdempotencyStore) (s : IdempotencyLedger) (i : ℚ × IdempotencyCall)
    (h : Matches (m.visible s.clock) s (s.clock < ·)) (hp : s.Proper i) :
    (m.exec i).1 = (s.exec i).1 ∧
      Matches ((m.exec i).2.visible (s.exec i).2.clock) (s.exec i).2 ((s.exec i).2.clock < ·) := by
  refine InMemoryIdempotencyStore.exec_matches (h.of_imp (fun e he => ?_)
    (InMemoryIdempotencyStore.visible_of_le hp.1)) hp
  exact decide_eq_true (hp.1.trans_lt (of_decide_eq_true he))

theorem redis_step (store : RedisIdempotencyStore) (m : RedisIdempotencyStore.Server)
    (s : IdempotencyLedger) (i : ℚ × IdempotencyCall)
    (h : Matches (store.visible m s.clock) s (s.clock ≤ ·)) (hp : s.Proper i) :
    (store.exec i m).1 = (s.exec i).1 ∧
      Matches (store.visible (store.exec i m).2 (s.exec i).2.clock) (s.exec i).2
        ((s.exec i).2.clock ≤ ·) := by
  refine RedisIdempotencyStore.exec_matches (h.of_imp (fun e he => ?_)
    (RedisIdempotencyStore.visible_of_le hp.1)) hp
  exact decide_eq_true (hp.1.trans (of_decide_eq_true he))

def someResponse : IdempotencyRecord :=
  { status := 201, body := [], headers := [], fingerprint := "fp", createdAt := 0 }

def promptRun : List (ℚ × IdempotencyCall) :=
  [(0, .reserve "k" "fp" ⟨1, "1.0"⟩), (1 / 2, .complete "k" someResponse), (3 / 4, .get "k"),
    (2, .get "k"), (2, .release "k")]

def lateRun : List (ℚ × IdempotencyCall) :=
  [(0, .reserve "k" "fp" ⟨1, "1.0"⟩), (2, .complete "k" someResponse), (1000, .get "k")]

def releasedRun : List (ℚ × IdempotencyCall) :=
  [(0, .reserve "k" "fp" ⟨1, "1.0"⟩), (0, .complete "k" someResponse), (0, .get "k"),
    (0, .release "k"), (0, .get "k")]

end Varco
