import Mathlib.Algebra.Order.Group.Int
import Varco.Foundations.Broker
import Varco.Foundations.Run

/-!
# Consumers of a Redis stream

`RedisStreamEventBus` of `varco_redis.streams`: any number of consumers read one stream through one
group, dispatch what they read, and acknowledge it with `XACK`. A consumer may crash between any two
calls, and is started again with the counters that it had (`stop` and `start`) or without them.

A message is only acknowledged when it is `Finished`. What is handed out and not acknowledged is
pending in the group, whatever the name of its reader, and no consumer asks for it again: when no
consumer has it in hand (`Custody`), it was `Left` behind.
-/

namespace Varco

open Function List

namespace RedisStreamEventBus

/-- `max_delivery_count`, whether there is a `dlq`, and `batch_size`. -/
structure Settings where
  maxDeliveryCount : ℤ
  dlq : Bool
  batchSize : ℕ
  positive : 0 < batchSize

/-- What has happened to a message. -/
inductive Event
  | dispatched (messageId : ℕ)
  | failed (messageId : ℕ)
  | pushed (messageId : ℕ) (stored : Bool)
  | acked (messageId : ℕ)
  /-- Its reader stopped, or crashed, with the message in hand. -/
  | abandoned (messageId : ℕ)
  deriving DecidableEq

section

variable {E C : Type}

/-- Where a consumer is in its read cycle; `rest` are the messages that it has read and not yet
processed. -/
inductive Phase (E : Type)
  | stopped
  | working (rest : List (ℕ × Option E))
  | pushing (messageId : ℕ) (rest : List (ℕ × Option E))
  | acking (messageId : ℕ) (exhausted : Bool) (rest : List (ℕ × Option E))

def Phase.rest : Phase E → List (ℕ × Option E)
  | .stopped => []
  | .working rest | .pushing _ rest | .acking _ _ rest => rest

/-- A consumer, with `_delivery_counts`. -/
structure Consumer (E : Type) where
  phase : Phase E := .stopped
  deliveryCounts : ℕ → ℕ := fun _ => 0

/-- What a consumer has read and not yet dispatched. -/
def Consumer.waiting (consumer : Consumer E) : List ℕ := consumer.phase.rest.map (·.1)

/-- What a consumer has read and is not done with. -/
def Consumer.inHand (consumer : Consumer E) : List ℕ :=
  match consumer.phase with
  | .pushing i _ | .acking i _ _ => i :: consumer.waiting
  | _ => consumer.waiting

/-- The stream with its group, the consumers, and what has happened. The payload of a message that
cannot be decoded is `none`. -/
structure State (E C : Type) where
  stream : StreamGroup (Option E) := {}
  consumers : C → Consumer E := fun _ => {}
  events : List Event := []

/-- What happens next. -/
inductive Move (E C : Type)
  | publish (payload : Option E)
  | start (c : C) (kept : Bool)
  | read (c : C)
  | process (c : C) (raises : Bool)
  | push (c : C) (stored : Bool)
  | xack (c : C)
  | crash (c : C)

/-- `_handle_dispatch_failure`, up to its next call. -/
def handleDispatchFailure (cfg : Settings) (counts : ℕ → ℕ) (messageId : ℕ)
    (rest : List (ℕ × Option E)) : Consumer E :=
  if cfg.maxDeliveryCount = 0 then ⟨.working rest, counts⟩
  else
    let count := counts messageId + 1
    let counts := update counts messageId count
    if count < cfg.maxDeliveryCount then ⟨.working rest, counts⟩
    else if cfg.dlq then ⟨.pushing messageId rest, counts⟩
    else ⟨.acking messageId true rest, counts⟩

/-- `_process_message`, up to its next call after the dispatch, with what the dispatch did. -/
def processMessage (cfg : Settings) (counts : ℕ → ℕ) (message : ℕ × Option E)
    (rest : List (ℕ × Option E)) (raises : Bool) : Consumer E × List Event :=
  match message.2 with
  | none => (⟨.acking message.1 false rest, counts⟩, [])
  | some _ =>
    if raises then (handleDispatchFailure cfg counts message.1 rest, [.failed message.1])
    else
      (⟨.acking message.1 false rest, update counts message.1 0⟩,
        [.dispatched message.1])

variable [DecidableEq C]

def State.set (s : State E C) (c : C) (consumer : Consumer E) (more : List Event) : State E C :=
  { s with consumers := update s.consumers c consumer, events := s.events ++ more }

def State.act (cfg : Settings) (s : State E C) : Move E C → Option (State E C)
  | .publish payload => some { s with stream := s.stream.add payload }
  | .start c kept =>
    match (s.consumers c).phase with
    | .stopped =>
      let counts := if kept then (s.consumers c).deliveryCounts else fun _ => 0
      some (s.set c ⟨.working [], counts⟩ [])
    | _ => none
  | .read c =>
    match (s.consumers c).phase with
    | .working [] =>
      let counts := (s.consumers c).deliveryCounts
      some { s.set c ⟨.working (s.stream.toRead cfg.batchSize), counts⟩ [] with
        stream := s.stream.readNew cfg.batchSize }
    | _ => none
  | .process c raises =>
    match (s.consumers c).phase with
    | .working (message :: rest) =>
      let counts := (s.consumers c).deliveryCounts
      let (consumer, more) := processMessage cfg counts message rest raises
      some (s.set c consumer more)
    | _ => none
  | .push c stored =>
    match (s.consumers c).phase with
    | .pushing i rest =>
      let counts := (s.consumers c).deliveryCounts
      some (s.set c ⟨.acking i true rest, counts⟩ [.pushed i stored])
    | _ => none
  | .xack c =>
    match (s.consumers c).phase with
    | .acking i exhausted rest =>
      let counts := (s.consumers c).deliveryCounts
      let counts := if exhausted then update counts i 0 else counts
      some { s.set c ⟨.working rest, counts⟩ [.acked i] with stream := s.stream.ack i }
    | _ => none
  | .crash c =>
    let counts := (s.consumers c).deliveryCounts
    some (s.set c ⟨.stopped, counts⟩ ((s.consumers c).inHand.map .abandoned))

def failures (events : List Event) (i : ℕ) : ℕ := events.count (.failed i)

def Exhausted (cfg : Settings) (events : List Event) (i : ℕ) : Prop :=
  cfg.maxDeliveryCount ≠ 0 ∧ 0 < failures events i ∧ cfg.maxDeliveryCount ≤ failures events i

/-- A message was dispatched, or it cannot be decoded, or its deliveries are used up and it was
pushed to the DLQ, if there is one. -/
def Finished (cfg : Settings) (s : State E C) (i : ℕ) : Prop :=
  .dispatched i ∈ s.events ∨ (i, none) ∈ s.stream.messages ∨
    Exhausted cfg s.events i ∧ (cfg.dlq = true → ∃ stored, .pushed i stored ∈ s.events)

/-- The reader of a message stopped, or its dispatch failed and its deliveries are not used up. -/
def Left (cfg : Settings) (events : List Event) (i : ℕ) : Prop :=
  .abandoned i ∈ events ∨ 0 < failures events i ∧ ¬Exhausted cfg events i

def Quiet (cfg : Settings) (s : State E C) : Prop :=
  s.stream.toRead cfg.batchSize = [] ∧
    ∀ c, (s.consumers c).phase = .stopped ∨ (s.consumers c).phase = .working []

/-! ## What grows -/

/-- The stream and the history grow. -/
structure Grows (s s' : State E C) : Prop where
  messages : s.stream.messages ⊆ s'.stream.messages
  events : ∃ more, s'.events = s.events ++ more

variable {cfg : Settings} {s s' : State E C} {a : Move E C} {c c' : C} {i : ℕ}
  {consumer : Consumer E}
  {events more : List Event} {counts : ℕ → ℕ} {rest : List (ℕ × Option E)} {raises : Bool}
  {message : ℕ × Option E}

theorem failures_le_append : failures events i ≤ failures (events ++ more) i := by
  unfold failures
  rw [count_append]
  exact Nat.le_add_right ..

theorem Exhausted.append (h : Exhausted cfg events i) : Exhausted cfg (events ++ more) i :=
  ⟨h.1, h.2.1.trans_le failures_le_append,
    h.2.2.trans (Int.ofNat_le.mpr failures_le_append)⟩

omit [DecidableEq C] in
theorem Finished.grow (h : Finished cfg s i) (hgrows : Grows s s') : Finished cfg s' i := by
  obtain ⟨hmessages, more, hevents⟩ := hgrows
  unfold Finished
  rw [hevents]
  rcases h with h | h | ⟨hexhausted, hpushed⟩
  · exact Or.inl (mem_append_left _ h)
  · exact Or.inr (Or.inl (hmessages h))
  · refine Or.inr (Or.inr ⟨hexhausted.append, fun hdlq => ?_⟩)
    obtain ⟨stored, hmem⟩ := hpushed hdlq
    exact ⟨stored, mem_append_left _ hmem⟩

/-! ## What holds throughout -/

def Phase.Right (cfg : Settings) (s : State E C) : Phase E → Prop
  | .pushing i _ => Exhausted cfg s.events i
  | .acking i _ _ => Finished cfg s i
  | _ => True

/-- A consumer has read its messages from the stream, and counts failures that happened. -/
structure Consumer.Sound (cfg : Settings) (s : State E C) (consumer : Consumer E) : Prop where
  rest : consumer.phase.rest ⊆ s.stream.messages
  counts : ∀ i, consumer.deliveryCounts i ≤ failures s.events i
  right : consumer.phase.Right cfg s

/-- What holds throughout. -/
structure Invariant (cfg : Settings) (s : State E C) : Prop where
  ordered : s.stream.Ordered
  acked : ∀ i, .acked i ∈ s.events → Finished cfg s i
  /-- What was handed out is pending until it is acknowledged. -/
  handed : ∀ m ∈ s.stream.messages, m.1 < s.stream.delivered →
    m.1 ∈ s.stream.pending ∨ .acked m.1 ∈ s.events
  mark : s.stream.delivered ≤ s.stream.nextId
  sound : ∀ c, (s.consumers c).Sound cfg s

omit [DecidableEq C] in
theorem Consumer.Sound.grow (h : consumer.Sound cfg s) (hgrows : Grows s s') :
    consumer.Sound cfg s' where
  rest := List.Subset.trans h.rest hgrows.messages
  counts i := by
    obtain ⟨more, hevents⟩ := hgrows.events
    rw [hevents]
    exact (h.counts i).trans failures_le_append
  right := by
    have hright := h.right
    cases hphase : consumer.phase with
    | stopped | working => trivial
    | pushing i rest =>
      rw [hphase] at hright
      obtain ⟨more, hevents⟩ := hgrows.events
      change Exhausted cfg s'.events i
      rw [hevents]
      exact Exhausted.append hright
    | acking i exhausted rest =>
      rw [hphase] at hright
      exact Finished.grow hright hgrows

theorem consumers_set_self : (s.set c consumer more).consumers c = consumer := update_self ..

theorem consumers_set_of_ne (h : c' ≠ c) :
    (s.set c consumer more).consumers c' = s.consumers c' := update_of_ne h ..

theorem grows_set : Grows s (s.set c consumer more) := ⟨fun _ h => h, more, rfl⟩

theorem Invariant.set (h : Invariant cfg s) (hmore : ∀ i, .acked i ∉ more)
    (hsound : consumer.Sound cfg (s.set c consumer more)) :
    Invariant cfg (s.set c consumer more) where
  ordered := h.ordered
  acked i hack :=
    (h.acked i ((mem_append.mp hack).resolve_right (hmore i))).grow grows_set
  handed m hm hlt := (h.handed m hm hlt).imp_right (mem_append_left _)
  mark := h.mark
  sound c' := by
    by_cases hc : c' = c
    · rw [hc, consumers_set_self]
      exact hsound
    · rw [consumers_set_of_ne hc]
      exact (h.sound c').grow grows_set

/-! ## Each step -/

omit [DecidableEq C] in
theorem Invariant.publish (h : Invariant cfg s) {payload : Option E} :
    Invariant cfg { s with stream := s.stream.add payload } := by
  have hgrows : Grows s { s with stream := s.stream.add payload } :=
    ⟨fun _ hm => StreamGroup.mem_add.mpr (Or.inl hm), [], (append_nil _).symm⟩
  constructor
  · exact h.ordered.add
  · exact fun i hack => (h.acked i hack).grow hgrows
  · intro m hm hlt
    rcases StreamGroup.mem_add.mp hm with hold | rfl
    · exact h.handed m hold hlt
    · exact absurd hlt (not_lt.mpr h.mark)
  · exact h.mark.trans (Nat.le_succ _)
  · exact fun c => (h.sound c).grow hgrows

theorem Invariant.read (h : Invariant cfg s) :
    Invariant cfg { s.set c
        ⟨.working (s.stream.toRead cfg.batchSize), (s.consumers c).deliveryCounts⟩ [] with
      stream := s.stream.readNew cfg.batchSize } := by
  have hset : Invariant cfg (s.set c
      ⟨.working (s.stream.toRead cfg.batchSize), (s.consumers c).deliveryCounts⟩ []) := by
    refine h.set (fun _ => not_mem_nil) ⟨fun m hm => ?_, fun i => ?_, trivial⟩
    · exact (h.ordered.mem_toRead.mp hm).1
    · exact ((h.sound c).counts i).trans failures_le_append
  have hread : ∀ {m}, m ∈ s.stream.toRead cfg.batchSize ↔ m ∈ s.stream.messages ∧
      s.stream.delivered ≤ m.1 ∧ m.1 < (s.stream.readNew cfg.batchSize).delivered :=
    h.ordered.mem_toRead
  constructor
  · exact h.ordered.readNew
  · exact fun i hack => (hset.acked i hack).grow ⟨fun _ hm => hm, [], (append_nil _).symm⟩
  · intro m hm hlt
    rcases lt_or_ge m.1 s.stream.delivered with hold | hnew
    · exact (hset.handed m hm hold).imp_left (mem_append_left _)
    · exact Or.inl (mem_append_right _ (mem_map.mpr ⟨m, hread.mpr ⟨hm, hnew, hlt⟩, rfl⟩))
  · exact h.ordered.delivered_readNew_le h.mark
  · exact fun c' => (hset.sound c').grow ⟨fun _ hm => hm, [], (append_nil _).symm⟩

theorem sound_handleDispatchFailure (hsound : ∀ j, counts j ≤ failures s.events j)
    (hrest : rest ⊆ s.stream.messages) : (handleDispatchFailure cfg counts i rest).Sound cfg
      (s.set c (handleDispatchFailure cfg counts i rest) [.failed i]) := by
  have hcount : counts i + 1 ≤ failures (s.events ++ [Event.failed i]) i := by
    unfold failures
    rw [count_append, count_singleton_self]
    exact Nat.succ_le_succ (hsound i)
  have hcounts : ∀ j, update counts i (counts i + 1) j ≤
      failures (s.events ++ [Event.failed i]) j := by
    intro j
    by_cases hj : j = i
    · rw [hj, update_self]
      exact hcount
    · rw [update_of_ne hj]
      exact (hsound j).trans failures_le_append
  unfold handleDispatchFailure
  by_cases hzero : cfg.maxDeliveryCount = 0
  · rw [if_pos hzero]
    exact ⟨hrest, fun j => (hsound j).trans failures_le_append, trivial⟩
  rw [if_neg hzero]
  dsimp only
  by_cases hlimit : ((counts i + 1 : ℕ) : ℤ) < cfg.maxDeliveryCount
  · rw [if_pos hlimit]
    exact ⟨hrest, hcounts, trivial⟩
  rw [if_neg hlimit]
  have hexhausted : Exhausted cfg (s.events ++ [Event.failed i]) i :=
    ⟨hzero, (Nat.succ_pos _).trans_le hcount, (not_lt.mp hlimit).trans (Int.ofNat_le.mpr hcount)⟩
  by_cases hdlq : cfg.dlq = true
  · rw [if_pos hdlq]
    exact ⟨hrest, hcounts, hexhausted⟩
  · rw [if_neg hdlq]
    exact ⟨hrest, hcounts, Or.inr (Or.inr ⟨hexhausted, fun h => absurd h hdlq⟩)⟩

theorem Invariant.process (h : Invariant cfg s)
    (hphase : (s.consumers c).phase = .working (message :: rest)) :
    Invariant cfg (s.set c
      (processMessage cfg (s.consumers c).deliveryCounts message rest raises).1
      (processMessage cfg (s.consumers c).deliveryCounts message rest raises).2) := by
  obtain ⟨hmessages, hcounts, -⟩ := h.sound c
  rw [hphase] at hmessages
  have hmessage : message ∈ s.stream.messages := hmessages mem_cons_self
  have hrest : rest ⊆ s.stream.messages := List.Subset.trans (subset_cons_self ..) hmessages
  obtain ⟨i, payload⟩ := message
  cases payload with
  | none =>
    refine h.set (fun _ => not_mem_nil) ⟨hrest, fun j => ?_, Or.inr (Or.inl hmessage)⟩
    exact (hcounts j).trans failures_le_append
  | some e =>
    cases raises with
    | true => exact h.set (by simp [processMessage]) (sound_handleDispatchFailure hcounts hrest)
    | false =>
      have hdispatched : .dispatched i ∈ s.events ++ [Event.dispatched i] :=
        mem_append_right _ mem_cons_self
      refine h.set (by simp [processMessage]) ⟨hrest, fun j => ?_, Or.inl hdispatched⟩
      have hold : failures s.events j ≤ failures (s.events ++ [Event.dispatched i]) j :=
        failures_le_append
      refine le_trans ?_ hold
      change update (s.consumers c).deliveryCounts i 0 j ≤ _
      by_cases hj : j = i
      · rw [hj, update_self]
        exact Nat.zero_le _
      · rw [update_of_ne hj]
        exact hcounts j

theorem Invariant.push (h : Invariant cfg s) {stored : Bool}
    (hphase : (s.consumers c).phase = .pushing i rest) :
    Invariant cfg (s.set c ⟨.acking i true rest, (s.consumers c).deliveryCounts⟩
      [.pushed i stored]) := by
  obtain ⟨hmessages, hcounts, hright⟩ := h.sound c
  rw [hphase] at hmessages hright
  refine h.set (by simp) ⟨hmessages, fun j => (hcounts j).trans failures_le_append, ?_⟩
  refine Or.inr (Or.inr ⟨Exhausted.append hright, fun _ => ⟨stored, ?_⟩⟩)
  exact mem_append_right _ mem_cons_self

theorem Invariant.xack (h : Invariant cfg s) {exhausted : Bool}
    (hphase : (s.consumers c).phase = .acking i exhausted rest)
    (hcounts : ∀ j, counts j ≤ (s.consumers c).deliveryCounts j) :
    Invariant cfg { s.set c ⟨.working rest, counts⟩ [.acked i] with
      stream := s.stream.ack i } := by
  obtain ⟨hmessages, hsound, hright⟩ := h.sound c
  rw [hphase] at hmessages hright
  have hgrows : Grows s { s.set c ⟨.working rest, counts⟩ [.acked i] with
      stream := s.stream.ack i } := ⟨fun _ hm => hm, [.acked i], rfl⟩
  constructor
  · exact h.ordered.ack
  · intro j hack
    rcases mem_append.mp hack with hold | hnew
    · exact (h.acked j hold).grow hgrows
    · cases mem_singleton.mp hnew
      exact Finished.grow hright hgrows
  · intro m hm hlt
    by_cases hi : m.1 = i
    · exact Or.inr (mem_append_right _ (by rw [hi]; exact mem_cons_self))
    · rcases h.handed m hm hlt with hpending | hack
      · exact Or.inl (mem_filter.mpr ⟨hpending, decide_eq_true hi⟩)
      · exact Or.inr (mem_append_left _ hack)
  · exact h.mark
  · intro c'
    change (update s.consumers c ⟨.working rest, counts⟩ c').Sound cfg _
    by_cases hc : c' = c
    · rw [hc, update_self]
      refine ⟨hmessages, fun j => ?_, trivial⟩
      exact ((hcounts j).trans (hsound j)).trans failures_le_append
    · rw [update_of_ne hc]
      exact (h.sound c').grow hgrows

theorem Invariant.act (h : Invariant cfg s) (hact : s.act cfg a = some s') : Invariant cfg s' := by
  cases a with
  | publish payload =>
    cases hact
    exact h.publish
  | start c kept =>
    simp only [State.act] at hact
    split at hact
    · cases hact
      refine h.set (fun _ => not_mem_nil) ⟨nil_subset _, fun j => ?_, trivial⟩
      cases kept with
      | true => exact ((h.sound c).counts j).trans failures_le_append
      | false => exact Nat.zero_le _
    · cases hact
  | read c =>
    simp only [State.act] at hact
    split at hact
    · cases hact
      exact h.read
    · cases hact
  | process c raises =>
    simp only [State.act] at hact
    split at hact
    · rename_i message rest hphase
      cases hact
      exact h.process hphase
    · cases hact
  | push c stored =>
    simp only [State.act] at hact
    split at hact
    · rename_i i rest hphase
      cases hact
      exact h.push hphase
    · cases hact
  | xack c =>
    simp only [State.act] at hact
    split at hact
    · rename_i i exhausted rest hphase
      cases hact
      refine h.xack hphase fun j => ?_
      split_ifs
      · by_cases hj : j = i
        · rw [hj, update_self]
          exact Nat.zero_le _
        · rw [update_of_ne hj]
      · exact le_rfl
    · cases hact
  | crash c =>
    cases hact
    exact h.set (by simp)
      ⟨nil_subset _, fun j => ((h.sound c).counts j).trans failures_le_append, trivial⟩

/-! ## Who has the messages -/

theorem failures_append_of_notMem (h : .failed i ∉ more) :
    failures (events ++ more) i = failures events i := by
  unfold failures
  rw [count_append, count_eq_zero_of_not_mem h, Nat.add_zero]

theorem Left.append (h : Left cfg events i)
    (hmore : .failed i ∈ more → failures events i = 0) : Left cfg (events ++ more) i := by
  rcases h with h | ⟨hpos, hbelow⟩
  · exact Or.inl (mem_append_left _ h)
  · have hsame : failures (events ++ more) i = failures events i :=
      failures_append_of_notMem fun hmem => hpos.ne' (hmore hmem)
    refine Or.inr ⟨hsame ▸ hpos, fun hexhausted => hbelow ?_⟩
    unfold Exhausted at hexhausted
    rwa [hsame] at hexhausted

/-- Each message waits for at most one dispatch, by at most one consumer, and those that nobody has
in hand are finished, or were left. -/
structure Custody (cfg : Settings) (s : State E C) : Prop where
  unread : ∀ i, s.stream.delivered ≤ i → failures s.events i = 0
  waiting : ∀ c, ∀ i ∈ (s.consumers c).waiting,
    i < s.stream.delivered ∧ failures s.events i = 0
  nodup : ∀ c, (s.consumers c).waiting.Nodup
  alone : ∀ c c' i, i ∈ (s.consumers c).waiting → i ∈ (s.consumers c').waiting → c = c'
  accounted : ∀ m ∈ s.stream.messages, m.1 < s.stream.delivered →
    Finished cfg s m.1 ∨ Left cfg s.events m.1 ∨ ∃ c, m.1 ∈ (s.consumers c).inHand

/-- One consumer goes on with what it has. -/
theorem Custody.set (h : Custody cfg s)
    (hwaiting : consumer.waiting.Sublist (s.consumers c).waiting)
    (hfailed : ∀ i, .failed i ∈ more → i ∈ (s.consumers c).waiting ∧ i ∉ consumer.waiting)
    (hdone : ∀ i ∈ (s.consumers c).inHand, i ∈ consumer.inHand ∨
      Finished cfg (s.set c consumer more) i ∨ Left cfg (s.events ++ more) i) :
    Custody cfg (s.set c consumer more) := by
  have hold : ∀ c', ((s.set c consumer more).consumers c').waiting ⊆ (s.consumers c').waiting := by
    intro c'
    by_cases hc : c' = c
    · rw [hc, consumers_set_self]
      exact hwaiting.subset
    · rw [consumers_set_of_ne hc]
      exact fun _ hi => hi
  constructor
  · intro i hi
    refine (failures_append_of_notMem fun hmem => ?_).trans (h.unread i hi)
    exact absurd (h.waiting c i (hfailed i hmem).1).1 (not_lt.mpr hi)
  · intro c' i hi
    obtain ⟨hlt, hzero⟩ := h.waiting c' i (hold c' hi)
    refine ⟨hlt, (failures_append_of_notMem fun hmem => ?_).trans hzero⟩
    -- The message would be dispatched by `c`, and wait still, or wait for another.
    obtain ⟨hhere, hgone⟩ := hfailed i hmem
    cases h.alone c c' i hhere (hold c' hi)
    rw [consumers_set_self] at hi
    exact hgone hi
  · intro c'
    by_cases hc : c' = c
    · rw [hc, consumers_set_self]
      exact (h.nodup c).sublist hwaiting
    · rw [consumers_set_of_ne hc]
      exact h.nodup c'
  · exact fun c₁ c₂ i h₁ h₂ => h.alone c₁ c₂ i (hold c₁ h₁) (hold c₂ h₂)
  · intro m hm hlt
    rcases h.accounted m hm hlt with hfinished | hleft | ⟨c', hhand⟩
    · exact Or.inl (hfinished.grow grows_set)
    · exact Or.inr (Or.inl (hleft.append fun hmem => (h.waiting c _ (hfailed _ hmem).1).2))
    · by_cases hc : c' = c
      · subst hc
        rcases hdone _ hhand with hhere | hfinished | hleft
        · exact Or.inr (Or.inr ⟨c', by rwa [consumers_set_self]⟩)
        · exact Or.inl hfinished
        · exact Or.inr (Or.inl hleft)
      · exact Or.inr (Or.inr ⟨c', by rwa [consumers_set_of_ne hc]⟩)

omit [DecidableEq C] in
theorem Custody.publish (h : Custody cfg s) (hinv : Invariant cfg s) {payload : Option E} :
    Custody cfg { s with stream := s.stream.add payload } where
  unread := h.unread
  waiting := h.waiting
  nodup := h.nodup
  alone := h.alone
  accounted m hm hlt := by
    rcases StreamGroup.mem_add.mp hm with hold | rfl
    · have hgrows : Grows s { s with stream := s.stream.add payload } :=
        ⟨fun _ hm => StreamGroup.mem_add.mpr (Or.inl hm), [], (append_nil _).symm⟩
      exact (h.accounted m hold hlt).imp_left (·.grow hgrows)
    · exact absurd hlt (not_lt.mpr hinv.mark)

theorem Custody.read (h : Custody cfg s) (hinv : Invariant cfg s)
    (hphase : (s.consumers c).phase = .working []) :
    Custody cfg { s.set c
        ⟨.working (s.stream.toRead cfg.batchSize), (s.consumers c).deliveryCounts⟩ [] with
      stream := s.stream.readNew cfg.batchSize } := by
  have hread : ∀ {m}, m ∈ s.stream.toRead cfg.batchSize ↔ m ∈ s.stream.messages ∧
      s.stream.delivered ≤ m.1 ∧ m.1 < (s.stream.readNew cfg.batchSize).delivered :=
    hinv.ordered.mem_toRead
  have hmark : s.stream.delivered ≤ (s.stream.readNew cfg.batchSize).delivered :=
    StreamGroup.le_delivered_readNew
  have hfresh : ∀ i ∈ (s.stream.toRead cfg.batchSize).map (·.1),
      s.stream.delivered ≤ i ∧ i < (s.stream.readNew cfg.batchSize).delivered := by
    intro i hi
    obtain ⟨m, hm, rfl⟩ := mem_map.mp hi
    exact (hread.mp hm).2
  have hwaits : ∀ c' i, i ∈ ((s.set c ⟨.working (s.stream.toRead cfg.batchSize),
      (s.consumers c).deliveryCounts⟩ []).consumers c').waiting →
        c' = c ∧ i ∈ (s.stream.toRead cfg.batchSize).map (·.1) ∨
        i ∈ (s.consumers c').waiting := by
    intro c' i hi
    by_cases hc : c' = c
    · rw [hc, consumers_set_self] at hi
      exact Or.inl ⟨hc, hi⟩
    · rw [consumers_set_of_ne hc] at hi
      exact Or.inr hi
  constructor
  · intro i hi
    rw [State.set, append_nil]
    exact h.unread i (hmark.trans hi)
  · intro c' i hi
    rw [State.set, append_nil]
    rcases hwaits c' i hi with ⟨-, hnew⟩ | hold
    · exact ⟨(hfresh i hnew).2, h.unread i (hfresh i hnew).1⟩
    · exact (h.waiting c' i hold).imp_left (·.trans_le hmark)
  · intro c'
    by_cases hc : c' = c
    · dsimp only
      rw [hc, consumers_set_self]
      have hsub : s.stream.toRead cfg.batchSize <+ s.stream.messages :=
        (take_sublist ..).trans filter_sublist
      exact (hinv.ordered.sorted.sublist (hsub.map _)).imp ne_of_lt
    · dsimp only
      rw [consumers_set_of_ne hc]
      exact h.nodup c'
  · intro c₁ c₂ i h₁ h₂
    rcases hwaits c₁ i h₁ with ⟨rfl, hnew₁⟩ | hold₁ <;>
      rcases hwaits c₂ i h₂ with ⟨rfl, hnew₂⟩ | hold₂
    · rfl
    · exact absurd (h.waiting c₂ i hold₂).1 (not_lt.mpr (hfresh i hnew₁).1)
    · exact absurd (h.waiting c₁ i hold₁).1 (not_lt.mpr (hfresh i hnew₂).1)
    · exact h.alone c₁ c₂ i hold₁ hold₂
  · intro m hm hlt
    rcases lt_or_ge m.1 s.stream.delivered with hold | hnew
    · rw [State.set, append_nil]
      rcases h.accounted m hm hold with hfinished | hleft | ⟨c', hhand⟩
      · exact Or.inl hfinished
      · exact Or.inr (Or.inl hleft)
      · refine Or.inr (Or.inr ⟨c', ?_⟩)
        have hc : c' ≠ c := by
          rintro rfl
          rw [Consumer.inHand, Consumer.waiting, hphase] at hhand
          exact not_mem_nil hhand
        dsimp only
        rwa [update_of_ne hc]
    · refine Or.inr (Or.inr ⟨c, ?_⟩)
      dsimp only
      rw [consumers_set_self]
      exact mem_map_of_mem (hread.mpr ⟨hm, hnew, hlt⟩)

omit [DecidableEq C] in
theorem waiting_subset_inHand : consumer.waiting ⊆ consumer.inHand := by
  unfold Consumer.inHand
  split
  · exact subset_cons_self ..
  · exact subset_cons_self ..
  · exact List.Subset.refl _

theorem waiting_handleDispatchFailure :
    (handleDispatchFailure cfg counts i rest).waiting = rest.map (·.1) := by
  unfold handleDispatchFailure
  dsimp only
  split_ifs <;> rfl

/-- After its first failure a message is still in hand, or its deliveries are not used up. -/
theorem inHand_handleDispatchFailure (hzero : failures events i = 0) :
    i ∈ (handleDispatchFailure cfg counts i rest).inHand ∨ Left cfg (events ++ [.failed i]) i := by
  have hone : failures (events ++ [Event.failed i]) i = 1 := by
    unfold failures at hzero ⊢
    rw [count_append, hzero, count_singleton_self]
  have hleft : ¬Exhausted cfg (events ++ [Event.failed i]) i →
      Left cfg (events ++ [Event.failed i]) i :=
    fun hbelow => Or.inr ⟨hone ▸ Nat.one_pos, hbelow⟩
  unfold handleDispatchFailure
  by_cases hnone : cfg.maxDeliveryCount = 0
  · exact Or.inr (hleft fun h => h.1 hnone)
  rw [if_neg hnone]
  dsimp only
  by_cases hlimit : ((counts i + 1 : ℕ) : ℤ) < cfg.maxDeliveryCount
  · refine Or.inr (hleft fun h => ?_)
    have hle := h.2.2
    rw [hone] at hle
    omega
  · rw [if_neg hlimit]
    left
    split_ifs <;> exact mem_cons_self

theorem Custody.process (h : Custody cfg s)
    (hphase : (s.consumers c).phase = .working (message :: rest)) :
    Custody cfg (s.set c
      (processMessage cfg (s.consumers c).deliveryCounts message rest raises).1
      (processMessage cfg (s.consumers c).deliveryCounts message rest raises).2) := by
  have hwaiting : (s.consumers c).waiting = message.1 :: rest.map (·.1) := by
    rw [Consumer.waiting, hphase]
    rfl
  have hhand : (s.consumers c).inHand = message.1 :: rest.map (·.1) := by
    rw [← hwaiting, Consumer.inHand, hphase]
  have hzero := (h.waiting c message.1 (hwaiting ▸ mem_cons_self)).2
  have hgone : message.1 ∉ rest.map (·.1) := (nodup_cons.mp (hwaiting ▸ h.nodup c)).1
  have hsub : rest.map (·.1) <+ (s.consumers c).waiting := hwaiting ▸ sublist_cons_self ..
  obtain ⟨i, payload⟩ := message
  cases payload with
  | none => exact h.set hsub nofun fun j hj => Or.inl (by rwa [hhand] at hj)
  | some e =>
    cases raises with
    | false =>
      exact h.set hsub (by simp [processMessage]) fun j hj => Or.inl (by rwa [hhand] at hj)
    | true =>
      have hsame : (handleDispatchFailure cfg (s.consumers c).deliveryCounts i rest).waiting =
          rest.map (·.1) := waiting_handleDispatchFailure
      refine h.set (by rwa [← hsame] at hsub) (fun j hj => ?_) fun j hj => ?_
      · cases mem_singleton.mp hj
        exact ⟨hwaiting ▸ mem_cons_self, fun hmem => hgone (hsame ▸ hmem)⟩
      · rw [hhand] at hj
        rcases mem_cons.mp hj with rfl | hj
        · exact (inHand_handleDispatchFailure hzero).imp_right Or.inr
        · exact Or.inl (waiting_subset_inHand (hsame ▸ hj))

theorem Custody.xack (h : Custody cfg s) (hinv : Invariant cfg s) {exhausted : Bool}
    (hphase : (s.consumers c).phase = .acking i exhausted rest) :
    Custody cfg { s.set c ⟨.working rest, counts⟩ [.acked i] with stream := s.stream.ack i } := by
  have hright := (hinv.sound c).right
  rw [hphase] at hright
  have hset : Custody cfg (s.set c ⟨.working rest, counts⟩ [.acked i]) := by
    refine h.set ?_ (by simp) fun j hj => ?_
    · rw [Consumer.waiting, Consumer.waiting, hphase]
      exact Sublist.refl _
    · rw [Consumer.inHand, Consumer.waiting, hphase] at hj
      rcases mem_cons.mp hj with rfl | hj
      · exact Or.inr (Or.inl (Finished.grow hright grows_set))
      · exact Or.inl hj
  exact ⟨hset.unread, hset.waiting, hset.nodup, hset.alone, hset.accounted⟩

theorem Custody.act (h : Custody cfg s) (hinv : Invariant cfg s) (hact : s.act cfg a = some s') :
    Custody cfg s' := by
  cases a with
  | publish payload =>
    cases hact
    exact h.publish hinv
  | start c kept =>
    simp only [State.act] at hact
    split at hact
    · rename_i hphase
      cases hact
      refine h.set (nil_sublist _) nofun fun i hi => ?_
      rw [Consumer.inHand, Consumer.waiting, hphase] at hi
      exact absurd hi not_mem_nil
    · cases hact
  | read c =>
    simp only [State.act] at hact
    split at hact
    · rename_i hphase
      cases hact
      exact h.read hinv hphase
    · cases hact
  | process c raises =>
    simp only [State.act] at hact
    split at hact
    · rename_i message rest hphase
      cases hact
      exact h.process hphase
    · cases hact
  | push c stored =>
    simp only [State.act] at hact
    split at hact
    · rename_i i rest hphase
      cases hact
      refine h.set ?_ (by simp) fun j hj => Or.inl ?_
      · rw [Consumer.waiting, Consumer.waiting, hphase]
        exact Sublist.refl _
      · rwa [Consumer.inHand, Consumer.waiting, hphase] at hj
    · cases hact
  | xack c =>
    simp only [State.act] at hact
    split at hact
    · rename_i i exhausted rest hphase
      cases hact
      exact h.xack hinv hphase
    · cases hact
  | crash c =>
    cases hact
    refine h.set (nil_sublist _) (by simp) fun i hi => Or.inr (Or.inr (Or.inl ?_))
    exact mem_append_right _ (mem_map_of_mem hi)

omit [DecidableEq C] in
theorem invariant_init : Invariant cfg ({} : State E C) where
  ordered := ⟨List.Pairwise.nil, fun _ h => absurd h not_mem_nil⟩
  acked _ h := absurd h not_mem_nil
  handed _ h := absurd h not_mem_nil
  mark := le_rfl
  sound _ := ⟨nil_subset _, fun _ => Nat.zero_le _, trivial⟩

omit [DecidableEq C] in
theorem custody_init : Custody cfg ({} : State E C) where
  unread _ _ := rfl
  waiting _ _ h := absurd h not_mem_nil
  nodup _ := nodup_nil
  alone _ _ _ h := absurd h not_mem_nil
  accounted _ h := absurd h not_mem_nil

end

end RedisStreamEventBus

open RedisStreamEventBus

/-- **A message is acknowledged when it is finished**; and when all consumers come back empty, each
message is finished, or it is pending and was left. -/
theorem stream_acknowledged_finished {E C : Type} [DecidableEq C] (cfg : Settings)
    {moves : List (Move E C)} {s : State E C}
    (h : Run (fun s a s' => State.act cfg s a = some s') {} moves s) :
    (∀ i, .acked i ∈ s.events → Finished cfg s i) ∧
    (Quiet cfg s → ∀ m ∈ s.stream.messages,
      Finished cfg s m.1 ∨ m.1 ∈ s.stream.pending ∧ Left cfg s.events m.1) := by
  have hboth : Invariant cfg s ∧ RedisStreamEventBus.Custody cfg s :=
    h.invariant (fun _ _ _ _ hact hs => And.intro (hs.1.act hact) (hs.2.act hs.1 hact))
      (And.intro invariant_init custody_init)
  obtain ⟨hinv, hcustody⟩ := hboth
  refine ⟨hinv.acked, fun hquiet m hm => ?_⟩
  have hlt := StreamGroup.lt_of_toRead_eq_nil cfg.positive hquiet.1 hm
  rcases hcustody.accounted m hm hlt with hfinished | hleft | ⟨c, hhand⟩
  · exact Or.inl hfinished
  · rcases hinv.handed m hm hlt with hpending | hack
    · exact Or.inr ⟨hpending, hleft⟩
    · exact Or.inl (hinv.acked m.1 hack)
  · rcases hquiet.2 c with hphase | hphase <;>
      · rw [Consumer.inHand, Consumer.waiting, hphase] at hhand
        exact absurd hhand not_mem_nil

/-- Two consumers; one of them fails at the second of its three messages, and then crashes. -/
theorem stream_acknowledged_finished_crash : ∃ s : State Unit Bool,
    s.events = [.dispatched 0, .acked 0, .acked 3, .failed 1, .abandoned 2] ∧
      s.stream.messages = [(0, some ()), (1, some ()), (2, some ()), (3, none)] ∧
      (∀ i, .acked i ∈ s.events → Finished ⟨2, true, 3, by decide⟩ s i) ∧
      ∀ m ∈ s.stream.messages, Finished ⟨2, true, 3, by decide⟩ s m.1 ∨
        m.1 ∈ s.stream.pending ∧ Left ⟨2, true, 3, by decide⟩ s.events m.1 := by
  have h : Run (fun s a s' => State.act ⟨2, true, 3, by decide⟩ s a = some s')
      ({} : State Unit Bool)
      [.publish (some ()), .publish (some ()), .publish (some ()), .publish none,
        .start false false, .start true false, .read false, .read true, .process false false,
        .xack false, .process true false, .xack true, .process false true, .crash false] _ :=
    .cons rfl (.cons rfl (.cons rfl (.cons rfl (.cons rfl (.cons rfl (.cons rfl (.cons rfl
      (.cons rfl (.cons rfl (.cons rfl (.cons rfl (.cons rfl (.cons rfl (.nil _))))))))))))))
  obtain ⟨hacked, hquiet⟩ := stream_acknowledged_finished ⟨2, true, 3, by decide⟩ h
  refine ⟨_, rfl, rfl, hacked, hquiet ⟨rfl, fun c => ?_⟩⟩
  cases c
  · exact Or.inl rfl
  · exact Or.inr rfl

/-- A message whose dispatch failed once is not read again, although it should be tried without an
end; and one whose push to the DLQ fails is acknowledged. -/
theorem stream_acknowledged_unfinished :
    (∃ s : State Unit Unit,
      Run (fun s a s' => State.act ⟨0, false, 10, by decide⟩ s a = some s') {}
        [.publish (some ()), .start () false, .read (), .process () true] s ∧
      Quiet ⟨0, false, 10, by decide⟩ s ∧ (0, some ()) ∈ s.stream.messages ∧
      ¬Finished ⟨0, false, 10, by decide⟩ s 0) ∧
    ∃ s : State Unit Unit,
      Run (fun s a s' => State.act ⟨1, true, 10, by decide⟩ s a = some s') {}
        [.publish (some ()), .start () false, .read (), .process () true, .push () false,
          .xack ()] s ∧
      s.events = [.failed 0, .pushed 0 false, .acked 0] ∧
      s.stream.messages = [(0, some ())] := by
  constructor
  · refine ⟨_, .cons rfl (.cons rfl (.cons rfl (.cons rfl (.nil _)))), ⟨rfl, fun _ => Or.inr rfl⟩,
      mem_cons_self, ?_⟩
    rintro (h | h | h)
    · exact absurd h (by decide)
    · exact absurd h (by decide)
    · exact h.1.1 rfl
  · exact ⟨_, .cons rfl (.cons rfl (.cons rfl (.cons rfl (.cons rfl (.cons rfl (.nil _)))))), rfl,
      rfl⟩

end Varco
