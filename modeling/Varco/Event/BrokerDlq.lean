import Varco.Foundations.Broker
import Varco.Foundations.Python
import Varco.Foundations.Run

/-!
# Dead-letter queues in brokers

`RedisStreamDLQ` of `varco_redis.stream_dlq` and `KafkaDLQ` of `varco_kafka.dlq`, for one relay that
pushes, pops, acknowledges and is restarted in any order. An entry is known by its `entry_id`, and a
payload that cannot be decoded has none.

What a queue owes its users is about the history of the calls (`ForgetsOnlyAcked`). Redis hands out
a message once, so it keeps the promise as long as all popped entries are acknowledged before a
restart; Kafka has one offset for each partition, so there the entries have to be acknowledged in
their order, without a gap. And a batch of entries none of which can be decoded looks like an empty
queue (`AllGarbage`).
-/

namespace Varco

open Function List PartitionedLog

namespace BrokerDlq

/-! ## Histories -/

/-- What has happened to a queue; `acked` are the acknowledgements of entries that it knew. -/
inductive Event
  | stored (entryId : UUID)
  | popped (entries : List UUID)
  | acked (entryId : UUID)
  | restarted
  deriving DecidableEq

def sinceRestart (events : List Event) : List UUID :=
  events.foldl (fun entries event =>
    match event with
    | .popped more => entries ++ more
    | .restarted => []
    | _ => entries) []

/-- **What was stored comes back until it is acknowledged, and not after that.** -/
structure ForgetsOnlyAcked (events : List Event) : Prop where
  /-- An entry that was not acknowledged is returned after a restart, when `pop_batch` is called
  until it returns nothing. -/
  redelivered : ∀ past calls : List Event,
    events = past ++ Event.restarted :: (calls ++ [.popped []]) → .restarted ∉ calls →
    ∀ e, .stored e ∈ past → .acked e ∉ past → ∃ entries, .popped entries ∈ calls ∧ e ∈ entries
  acked : ∀ (past : List Event) e (rest : List Event), events = past ++ .acked e :: rest →
    ∀ entries, .popped entries ∈ rest → e ∉ entries
  /-- A relay only acknowledges what it popped itself. -/
  own : ∀ (past : List Event) e (rest : List Event), events = past ++ .acked e :: rest →
      e ∈ sinceRestart past

variable {events : List Event} {event : Event} {e e' : UUID} {es : List UUID}

theorem sinceRestart_snoc : sinceRestart (events ++ [event]) =
    match event with
    | .popped more => sinceRestart events ++ more
    | .restarted => []
    | _ => sinceRestart events := by
  unfold sinceRestart
  rw [foldl_append]
  rfl

theorem mem_sinceRestart {past calls : List Event} (hcalls : .restarted ∉ calls) :
    e ∈ sinceRestart (past ++ .restarted :: calls) ↔
      ∃ entries, .popped entries ∈ calls ∧ e ∈ entries := by
  induction calls using List.reverseRecOn with
  | nil =>
    rw [sinceRestart_snoc]
    simp
  | append_singleton calls event ih =>
    have hstart : Event.restarted ∉ calls := fun h => hcalls (mem_append_left _ h)
    rw [← cons_append, ← append_assoc, sinceRestart_snoc]
    cases event with
    | stored | acked => simp [ih hstart]
    | restarted => exact absurd (mem_append_right _ mem_cons_self) hcalls
    | popped more =>
      simp only [mem_append, ih hstart, mem_singleton, Event.popped.injEq, or_and_right,
        exists_or, exists_eq_left]

theorem popped_of_sinceRestart (h : e ∈ sinceRestart events) :
    ∃ entries, .popped entries ∈ events ∧ e ∈ entries := by
  induction events using List.reverseRecOn with
  | nil => exact absurd h not_mem_nil
  | append_singleton events event ih =>
    have hold : e ∈ sinceRestart events →
        ∃ entries, .popped entries ∈ events ++ [event] ∧ e ∈ entries := by
      intro hmem
      obtain ⟨entries, hpopped, he⟩ := ih hmem
      exact ⟨entries, mem_append_left _ hpopped, he⟩
    rw [sinceRestart_snoc] at h
    cases event with
    | stored | acked => exact hold h
    | restarted => exact absurd h not_mem_nil
    | popped more =>
      rcases mem_append.mp h with hmem | hmem
      · exact hold hmem
      · exact ⟨more, mem_append_right _ mem_cons_self, hmem⟩

/-- **One more event**: a pop returns nothing only when all is returned that was not acknowledged,
and returns nothing that was acknowledged. -/
theorem ForgetsOnlyAcked.snoc (h : ForgetsOnlyAcked events)
    (hempty : event = .popped [] → ∀ e, .stored e ∈ events → .acked e ∉ events →
      e ∈ sinceRestart events)
    (hacked : ∀ entries, event = .popped entries → ∀ e ∈ entries, .acked e ∉ events)
    (hown : ∀ e, event = .acked e → e ∈ sinceRestart events) :
    ForgetsOnlyAcked (events ++ [event]) where
  redelivered past calls heq hcalls e hstored hnot := by
    rw [← cons_append, ← append_assoc] at heq
    obtain ⟨rfl, hlast⟩ := append_inj' heq rfl
    have hsince : e ∈ sinceRestart (past ++ .restarted :: calls) ↔
        ∃ entries, .popped entries ∈ calls ∧ e ∈ entries := mem_sinceRestart hcalls
    rw [← hsince]
    by_cases hack : Event.acked e ∈ calls
    · -- the relay popped it before it acknowledged it
      obtain ⟨before, rest, rfl⟩ := append_of_mem hack
      have hbefore : Event.restarted ∉ before := fun hr => hcalls (mem_append_left _ hr)
      have hpopped := h.own (past ++ .restarted :: before) e rest (by simp)
      rw [mem_sinceRestart hbefore] at hpopped
      obtain ⟨entries, hmem, he⟩ := hpopped
      exact (mem_sinceRestart hcalls).mpr ⟨entries, mem_append_left _ hmem, he⟩
    · refine hempty (singleton_inj.mp hlast) e (mem_append_left _ hstored) fun hmem => ?_
      rcases mem_append.mp hmem with hpast | hrest
      · exact hnot hpast
      · exact hack ((mem_cons.mp hrest).resolve_left nofun)
  acked past e rest heq entries hmem := by
    rcases eq_nil_or_concat rest with rfl | ⟨rest, last, rfl⟩
    · exact absurd hmem not_mem_nil
    · rw [concat_eq_append, ← cons_append, ← append_assoc] at heq
      obtain ⟨rfl, hlast⟩ := append_inj' heq rfl
      rw [concat_eq_append] at hmem
      rcases mem_append.mp hmem with hmem | hmem
      · exact h.acked past e rest rfl entries hmem
      · have hpopped : event = .popped entries :=
          (singleton_inj.mp hlast).trans (mem_singleton.mp hmem).symm
        exact fun he => hacked entries hpopped e he (by simp)
  own past e rest heq := by
    rcases eq_nil_or_concat rest with rfl | ⟨rest, last, rfl⟩
    · obtain ⟨rfl, hlast⟩ := append_inj' heq rfl
      exact hown e (singleton_inj.mp hlast)
    · rw [concat_eq_append, ← cons_append, ← append_assoc] at heq
      obtain ⟨rfl, -⟩ := append_inj' heq rfl
      exact h.own past e rest rfl

theorem ForgetsOnlyAcked.nil : ForgetsOnlyAcked [] where
  redelivered past calls heq := by simp at heq
  acked past e rest heq := by simp at heq
  own past e rest heq := by simp at heq

def limitError (limit : ℤ) : PyException :=
  .valueError ("pop_batch limit must be ≥ 1, got " ++ toString limit ++ ".")

theorem stored_stored : .stored e' ∈ events ++ [Event.stored e] ↔ .stored e' ∈ events ∨ e' = e := by
  simp

theorem acked_stored : .acked e' ∈ events ++ [Event.stored e] ↔ .acked e' ∈ events := by simp

theorem stored_acked : .stored e' ∈ events ++ [Event.acked e] ↔ .stored e' ∈ events := by simp

theorem acked_acked : .acked e' ∈ events ++ [Event.acked e] ↔ .acked e' ∈ events ∨ e' = e := by simp

theorem stored_popped : .stored e ∈ events ++ [Event.popped es] ↔ .stored e ∈ events := by simp

theorem acked_popped : .acked e ∈ events ++ [Event.popped es] ↔ .acked e ∈ events := by simp

theorem stored_restarted : .stored e ∈ events ++ [Event.restarted] ↔ .stored e ∈ events := by simp

theorem acked_restarted : .acked e ∈ events ++ [Event.restarted] ↔ .acked e ∈ events := by simp

end BrokerDlq

open BrokerDlq (ForgetsOnlyAcked sinceRestart limitError stored_stored acked_stored stored_acked
  acked_acked stored_popped acked_popped stored_restarted acked_restarted)

/-! ## Redis -/

namespace RedisStreamDLQ

/-- The stream with its consumer group; the fields `_group_created` and `_pending` of the relay; and
what has happened, with the ids of the messages that cannot be decoded. -/
structure State where
  stream : StreamGroup (Option UUID) := {}
  groupExists : Bool := false
  groupCreated : Bool := false
  pending : UUID → Option ℕ := fun _ => none
  events : List BrokerDlq.Event := []
  garbage : List ℕ := []

/-- What happens next. `corrupt` is an `XADD` whose payload is missing or cannot be decoded. -/
inductive Move
  | push (entryId : UUID)
  | corrupt
  | popBatch (limit : ℤ)
  | ack (entryId : UUID)
  | restart

/-- `_ensure_group`, which suppresses `BUSYGROUP`. -/
def State.ensureGroup (s : State) : State := { s with groupExists := true, groupCreated := true }

/-- `self._pending[entry.entry_id] = msg_id` -/
def register (pending : UUID → Option ℕ) (message : ℕ × Option UUID) : UUID → Option ℕ :=
  match message.2 with
  | none => pending
  | some e => update pending e (some message.1)

def popBatch (s : State) (limit : ℤ) : Except PyException (List UUID) × State :=
  if limit < 1 then (.error (limitError limit), s)
  else
    let s := if s.groupCreated then s else s.ensureGroup
    let messages := s.stream.toRead limit.toNat
    let entries := messages.filterMap (·.2)
    (.ok entries,
      { s with
        stream := s.stream.readNew limit.toNat
        pending := messages.foldl register s.pending
        events := s.events ++ [.popped entries] })

def ack (s : State) (e : UUID) : State :=
  match s.pending e with
  | none => s
  | some messageId =>
    { s with
      stream := (s.stream.ack messageId).del messageId
      pending := update s.pending e none
      events := s.events ++ [.acked e] }

def State.act (s : State) : Move → State
  | .push e => { s with stream := s.stream.add (some e), events := s.events ++ [.stored e] }
  | .corrupt =>
    { s with stream := s.stream.add none, garbage := s.garbage ++ [s.stream.nextId] }
  | .popBatch limit => (popBatch s limit).2
  | .ack e => ack s e
  | .restart =>
    { s with
      groupCreated := false
      pending := fun _ => none
      events := s.events ++ [.restarted] }

/-- One step; each entry has an `entry_id` of its own. -/
structure Step (s : State) (a : Move) (s' : State) : Prop where
  fresh : ∀ e, a = .push e → .stored e ∉ s.events
  act : s' = s.act a

def AllGarbage (s : State) (limit : ℤ) : Prop :=
  s.stream.toRead limit.toNat ≠ [] ∧ (s.stream.toRead limit.toNat).filterMap (·.2) = []

/-- Before a restart every popped entry was acknowledged, and no batch is all garbage. -/
def Settled (_ : List Move) (s : State) : Move → Prop
  | .restart => ∀ entries, .popped entries ∈ s.events → ∀ e ∈ entries, .acked e ∈ s.events
  | .popBatch limit => 1 ≤ limit → ¬AllGarbage s limit
  | _ => True

/-- What cannot be decoded stays in the stream, and pending once it was handed out. -/
def KeepsGarbage (s : State) : Prop :=
  ∀ i ∈ s.garbage, (i, none) ∈ s.stream.messages ∧
    (i < s.stream.delivered → i ∈ s.stream.pending)

/-- What holds throughout. -/
structure Invariant (s : State) : Prop where
  ordered : s.stream.Ordered
  mark : s.stream.delivered ≤ s.stream.nextId
  stored : ∀ e, .stored e ∈ s.events → .acked e ∈ s.events ∨ ∃ i, (i, some e) ∈ s.stream.messages
  acknowledged : ∀ e, .acked e ∈ s.events → .stored e ∈ s.events
  known : ∀ i e, (i, some e) ∈ s.stream.messages → .stored e ∈ s.events ∧ .acked e ∉ s.events
  once : ∀ i j e, (i, some e) ∈ s.stream.messages → (j, some e) ∈ s.stream.messages → i = j
  pending : ∀ e i, s.pending e = some i →
    (i, some e) ∈ s.stream.messages ∧ e ∈ sinceRestart s.events
  /-- What was handed out was popped since the last restart. -/
  handed : ∀ i e, (i, some e) ∈ s.stream.messages → i < s.stream.delivered →
    e ∈ sinceRestart s.events
  history : ForgetsOnlyAcked s.events
  garbage : KeepsGarbage s

variable {s s' : State} {a : Move} {e : UUID} {limit : ℤ} {i : ℕ}
  {messages : List (ℕ × Option UUID)} {pending : UUID → Option ℕ}

theorem register_cases (h : messages.foldl register pending e = some i) :
    pending e = some i ∨ (i, some e) ∈ messages := by
  induction messages generalizing pending with
  | nil => exact Or.inl h
  | cons m messages ih =>
    rcases ih h with hpending | hmem
    · obtain ⟨j, _ | e'⟩ := m
      · exact Or.inl hpending
      · change update pending e' (some j) e = some i at hpending
        by_cases he : e = e'
        · subst he
          rw [update_self] at hpending
          cases hpending
          exact Or.inr mem_cons_self
        · rw [update_of_ne he] at hpending
          exact Or.inl hpending
    · exact Or.inr (mem_cons_of_mem _ hmem)

section

variable (h : Invariant s)

include h

theorem Invariant.push (hfresh : .stored e ∉ s.events) : Invariant (s.act (.push e)) := by
  have hnew : ∀ {j e'}, (j, some e') ∈ (s.stream.add (some e)).messages →
      (j, some e') ∈ s.stream.messages ∨ j = s.stream.nextId ∧ e' = e := by
    intro j e' hmem
    refine (StreamGroup.mem_add.mp hmem).imp_right fun heq => ?_
    cases heq
    exact ⟨rfl, rfl⟩
  have hsince : sinceRestart (s.act (.push e)).events = sinceRestart s.events :=
    BrokerDlq.sinceRestart_snoc
  constructor
  · exact h.ordered.add
  · exact h.mark.trans (Nat.le_succ _)
  · intro e' hmem
    rcases stored_stored.mp hmem with hold | rfl
    · rcases h.stored e' hold with hack | ⟨j, hj⟩
      · exact Or.inl (acked_stored.mpr hack)
      · exact Or.inr ⟨j, StreamGroup.mem_add.mpr (Or.inl hj)⟩
    · exact Or.inr ⟨s.stream.nextId, StreamGroup.mem_add.mpr (Or.inr rfl)⟩
  · exact fun e' hack => stored_stored.mpr (Or.inl (h.acknowledged e' (acked_stored.mp hack)))
  · intro j e' hmem
    rcases hnew hmem with hold | ⟨-, rfl⟩
    · exact ⟨stored_stored.mpr (Or.inl (h.known j e' hold).1),
        mt acked_stored.mp (h.known j e' hold).2⟩
    · exact ⟨stored_stored.mpr (Or.inr rfl),
        fun hack => hfresh (h.acknowledged e' (acked_stored.mp hack))⟩
  · intro j j' e' hj hj'
    rcases hnew hj with hold | ⟨rfl, rfl⟩
    · rcases hnew hj' with hold' | ⟨rfl, rfl⟩
      · exact h.once j j' e' hold hold'
      · exact absurd (h.known j e' hold).1 hfresh
    · rcases hnew hj' with hold' | ⟨rfl, -⟩
      · exact absurd (h.known j' e' hold').1 hfresh
      · rfl
  · intro e' j hj
    rw [hsince]
    exact (h.pending e' j hj).imp_left fun hmem => StreamGroup.mem_add.mpr (Or.inl hmem)
  · intro j e' hmem hlt
    rw [hsince]
    rcases hnew hmem with hold | ⟨rfl, -⟩
    · exact h.handed j e' hold hlt
    · exact absurd hlt (not_lt.mpr h.mark)
  · exact h.history.snoc nofun nofun nofun
  · intro j hj
    obtain ⟨hmem, hpending⟩ := h.garbage j hj
    exact ⟨StreamGroup.mem_add.mpr (Or.inl hmem), hpending⟩

theorem Invariant.corrupt : Invariant (s.act .corrupt) := by
  have hold : ∀ {j e}, (j, some e) ∈ (s.stream.add none).messages →
      (j, some e) ∈ s.stream.messages := by
    intro j e hmem
    refine (StreamGroup.mem_add.mp hmem).resolve_right fun heq => ?_
    cases heq
  constructor
  · exact h.ordered.add
  · exact h.mark.trans (Nat.le_succ _)
  · intro e hmem
    exact (h.stored e hmem).imp_right fun ⟨j, hj⟩ => ⟨j, StreamGroup.mem_add.mpr (Or.inl hj)⟩
  · exact h.acknowledged
  · exact fun j e hmem => h.known j e (hold hmem)
  · exact fun j j' e hj hj' => h.once j j' e (hold hj) (hold hj')
  · intro e j hj
    exact (h.pending e j hj).imp_left fun hmem => StreamGroup.mem_add.mpr (Or.inl hmem)
  · exact fun j e hmem hlt => h.handed j e (hold hmem) hlt
  · exact h.history
  · intro j hj
    rcases mem_append.mp hj with hj | hj
    · obtain ⟨hmem, hpending⟩ := h.garbage j hj
      exact ⟨StreamGroup.mem_add.mpr (Or.inl hmem), hpending⟩
    · rw [mem_singleton.mp hj]
      exact ⟨StreamGroup.mem_add.mpr (Or.inr rfl), fun hlt => absurd hlt (not_lt.mpr h.mark)⟩

theorem Invariant.pop {groupExists groupCreated : Bool} {count : ℕ} (hcount : 0 < count)
    (hgarbage : (s.stream.toRead count).filterMap (·.2) = [] → s.stream.toRead count = []) :
    Invariant { s with
      groupExists := groupExists
      groupCreated := groupCreated
      stream := s.stream.readNew count
      pending := (s.stream.toRead count).foldl register s.pending
      events := s.events ++ [.popped ((s.stream.toRead count).filterMap (·.2))] } := by
  have hread : ∀ {m}, m ∈ s.stream.toRead count ↔ m ∈ s.stream.messages ∧
      s.stream.delivered ≤ m.1 ∧ m.1 < (s.stream.readNew count).delivered := h.ordered.mem_toRead
  have hentry : ∀ {e}, e ∈ (s.stream.toRead count).filterMap (·.2) ↔
      ∃ j, (j, some e) ∈ s.stream.toRead count := by
    intro e
    rw [mem_filterMap]
    constructor
    · rintro ⟨⟨j, _⟩, hm, rfl⟩
      exact ⟨j, hm⟩
    · rintro ⟨j, hj⟩
      exact ⟨_, hj, rfl⟩
  have hsince : sinceRestart (s.events ++
      [BrokerDlq.Event.popped ((s.stream.toRead count).filterMap (·.2))]) =
      sinceRestart s.events ++ (s.stream.toRead count).filterMap (·.2) :=
    BrokerDlq.sinceRestart_snoc
  constructor
  · exact h.ordered.readNew
  · exact h.ordered.delivered_readNew_le h.mark
  · exact fun e hmem => (h.stored e (stored_popped.mp hmem)).imp_left acked_popped.mpr
  · exact fun e hmem => stored_popped.mpr (h.acknowledged e (acked_popped.mp hmem))
  · exact fun j e hmem => (h.known j e hmem).imp stored_popped.mpr (mt acked_popped.mp)
  · exact h.once
  · intro e j hj
    rw [hsince]
    rcases register_cases hj with hold | hnew
    · exact (h.pending e j hold).imp_right (mem_append_left _)
    · exact ⟨(hread.mp hnew).1, mem_append_right _ (hentry.mpr ⟨j, hnew⟩)⟩
  · intro j e hmem hlt
    rw [hsince]
    rcases lt_or_ge j s.stream.delivered with hold | hnew
    · exact mem_append_left _ (h.handed j e hmem hold)
    · exact mem_append_right _ (hentry.mpr ⟨j, hread.mpr ⟨hmem, hnew, hlt⟩⟩)
  · refine h.history.snoc (fun heq e hmem hnot => ?_) (fun entries heq e he => ?_) nofun
    · -- all that is stored was handed out
      obtain ⟨j, hj⟩ := (h.stored e hmem).resolve_left hnot
      have hnil := hgarbage (BrokerDlq.Event.popped.inj heq)
      exact h.handed j e hj (StreamGroup.lt_of_toRead_eq_nil hcount hnil hj)
    · rw [← BrokerDlq.Event.popped.inj heq] at he
      obtain ⟨j, hj⟩ := hentry.mp he
      exact (h.known j e (hread.mp hj).1).2
  · intro j hj
    obtain ⟨hmem, hpending⟩ := h.garbage j hj
    refine ⟨hmem, fun hlt => ?_⟩
    rcases lt_or_ge j s.stream.delivered with hold | hnew
    · exact mem_append_left _ (hpending hold)
    · exact mem_append_right _ (mem_map.mpr ⟨_, hread.mpr ⟨hmem, hnew, hlt⟩, rfl⟩)

theorem Invariant.popBatch (hgarbage : 1 ≤ limit → ¬AllGarbage s limit) :
    Invariant (popBatch s limit).2 := by
  unfold RedisStreamDLQ.popBatch
  split_ifs with hlimit hcreated
  · exact h
  all_goals
    have hone : 1 ≤ limit := by omega
    have hcount : 0 < limit.toNat := Int.lt_toNat.mpr hone
    have hnot : (s.stream.toRead limit.toNat).filterMap (·.2) = [] →
        s.stream.toRead limit.toNat = [] := fun hnil => by
      by_contra hne
      exact hgarbage hone ⟨hne, hnil⟩
    exact h.pop hcount hnot

theorem Invariant.acknowledge (hpending : s.pending e = some i) :
    Invariant { s with
      stream := (s.stream.ack i).del i
      pending := update s.pending e none
      events := s.events ++ [.acked e] } := by
  obtain ⟨hi, hpopped⟩ := h.pending e i hpending
  have hmem : ∀ {m}, m ∈ ((s.stream.ack i).del i).messages ↔ m ∈ s.stream.messages ∧ m.1 ≠ i :=
    StreamGroup.mem_del
  -- the message is the only one of its id, and of its entry
  have hid : ∀ {x}, (i, x) ∈ s.stream.messages → x = some e := fun hx =>
    congrArg Prod.snd (h.ordered.eq_of_id hx hi rfl)
  have hsince : sinceRestart (s.events ++ [BrokerDlq.Event.acked e]) = sinceRestart s.events :=
    BrokerDlq.sinceRestart_snoc
  constructor
  · exact h.ordered.ack.del
  · exact h.mark
  · intro e' hmem'
    rcases h.stored e' (stored_acked.mp hmem') with hack | ⟨j, hj⟩
    · exact Or.inl (acked_acked.mpr (Or.inl hack))
    · by_cases hji : j = i
      · subst hji
        exact Or.inl (acked_acked.mpr (Or.inr (Option.some.inj (hid hj))))
      · exact Or.inr ⟨j, hmem.mpr ⟨hj, hji⟩⟩
  · intro e' hack
    rcases acked_acked.mp hack with hold | rfl
    · exact stored_acked.mpr (h.acknowledged e' hold)
    · exact stored_acked.mpr (h.known i e' hi).1
  · intro j e' hj
    obtain ⟨hj', hji⟩ := hmem.mp hj
    obtain ⟨hstore, hnot⟩ := h.known j e' hj'
    refine ⟨stored_acked.mpr hstore, fun hack => ?_⟩
    rcases acked_acked.mp hack with hold | rfl
    · exact hnot hold
    · exact hji (h.once j i e' hj' hi)
  · exact fun j j' e' hj hj' => h.once j j' e' (hmem.mp hj).1 (hmem.mp hj').1
  · intro e' j hj
    rw [hsince]
    change update s.pending e none e' = some j at hj
    by_cases he : e' = e
    · rw [he, update_self] at hj
      cases hj
    · rw [update_of_ne he] at hj
      obtain ⟨hj', hpopped'⟩ := h.pending e' j hj
      refine ⟨hmem.mpr ⟨hj', ?_⟩, hpopped'⟩
      rintro rfl
      exact he (Option.some.inj (hid hj'))
  · intro j e' hj hlt
    rw [hsince]
    exact h.handed j e' (hmem.mp hj).1 hlt
  · refine h.history.snoc nofun nofun fun e' heq => ?_
    cases heq
    exact hpopped
  · intro j hj
    obtain ⟨hj', hp⟩ := h.garbage j hj
    have hji : j ≠ i := by
      rintro rfl
      cases hid hj'
    exact ⟨hmem.mpr ⟨hj', hji⟩, fun hlt => mem_filter.mpr ⟨hp hlt, decide_eq_true hji⟩⟩

theorem Invariant.ack : Invariant (ack s e) := by
  unfold RedisStreamDLQ.ack
  cases hpending : s.pending e with
  | none => exact h
  | some i => exact h.acknowledge hpending

theorem Invariant.restart
    (hsettled : ∀ entries, .popped entries ∈ s.events → ∀ e ∈ entries, .acked e ∈ s.events) :
    Invariant (s.act .restart) := by
  constructor
  · exact h.ordered
  · exact h.mark
  · exact fun e hmem => (h.stored e (stored_restarted.mp hmem)).imp_left acked_restarted.mpr
  · exact fun e hmem => stored_restarted.mpr (h.acknowledged e (acked_restarted.mp hmem))
  · exact fun j e hmem => (h.known j e hmem).imp stored_restarted.mpr (mt acked_restarted.mp)
  · exact h.once
  · exact fun e j hj => nomatch hj
  · intro j e hmem hlt
    obtain ⟨entries, hpopped, he⟩ := BrokerDlq.popped_of_sinceRestart (h.handed j e hmem hlt)
    exact absurd (hsettled entries hpopped e he) (h.known j e hmem).2
  · exact h.history.snoc nofun nofun nofun
  · exact h.garbage

theorem Invariant.step {past : List Move} (hsettled : Settled past s a) (hstep : Step s a s') :
    Invariant s' := by
  obtain ⟨hfresh, rfl⟩ := hstep
  cases a with
  | push e => exact h.push (hfresh e rfl)
  | corrupt => exact h.corrupt
  | popBatch limit => exact h.popBatch hsettled
  | ack e => exact h.ack
  | restart => exact h.restart hsettled

end

theorem invariant_of_run {moves : List Move} (h : Guarded Step Settled {} moves s) :
    Invariant s := by
  refine h.invariant (I := fun _ s => Invariant s) ?_ fun _ _ _ _ _ hok hstep hs =>
    hs.step hok hstep
  constructor
  · exact ⟨List.Pairwise.nil, fun _ h => absurd h not_mem_nil⟩
  · exact le_rfl
  · exact fun _ h => absurd h not_mem_nil
  · exact fun _ h => absurd h not_mem_nil
  · exact fun _ _ h => absurd h not_mem_nil
  · exact fun _ _ _ h => absurd h not_mem_nil
  · exact fun _ _ h => nomatch h
  · exact fun _ _ h => absurd h not_mem_nil
  · exact .nil
  · exact fun _ h => absurd h not_mem_nil

end RedisStreamDLQ

/-! ## Kafka -/

namespace KafkaDLQ

/-- The topic with the offsets of the consumer group; the field `_in_flight` of the relay; and what
has happened. -/
structure State (P : Type) where
  topic : PartitionedLog P (Option UUID) := {}
  inFlight : UUID → Option (P × ℕ) := fun _ => none
  events : List BrokerDlq.Event := []

/-- What happens next. `batch` are the partitions of the records that `getmany` returns. -/
inductive Move (P : Type)
  | push (entryId : UUID) (partition : P)
  | corrupt (partition : P)
  | popBatch (limit : ℤ) (batch : List P)
  | ack (entryId : UUID)
  | restart

section

variable {P : Type} [DecidableEq P]

/-- `self._in_flight[str(entry.entry_id)] = (tp, record.offset)` -/
def register (inFlight : UUID → Option (P × ℕ)) (record : P × ℕ × Option UUID) :
    UUID → Option (P × ℕ) :=
  match record.2.2 with
  | none => inFlight
  | some e => update inFlight e (some (record.1, record.2.1))

/-- One step. `getmany` returns something if there is something. -/
inductive Step (s : State P) : Move P → State P → Prop
  | push {e : UUID} {p : P} (hfresh : .stored e ∉ s.events) :
      Step s (.push e p)
        { s with topic := s.topic.append p (some e), events := s.events ++ [.stored e] }
  | corrupt {p : P} : Step s (.corrupt p) { s with topic := s.topic.append p none }
  | refused {limit : ℤ} {batch : List P} (hlimit : limit < 1) : Step s (.popBatch limit batch) s
  | pop {limit : ℤ} {batch : List P} {records : List (P × ℕ × Option UUID)}
      {topic : PartitionedLog P (Option UUID)} (hlimit : 1 ≤ limit)
      (hlength : batch.length ≤ limit.toNat) (hpoll : s.topic.poll batch = some (records, topic))
      (hall : batch = [] → s.topic.Exhausted) :
      Step s (.popBatch limit batch)
        { s with
          topic := topic
          inFlight := records.foldl register s.inFlight
          events := s.events ++ [.popped (records.filterMap (·.2.2))] }
  | unknown {e : UUID} (hflight : s.inFlight e = none) : Step s (.ack e) s
  | ack {e : UUID} {p : P} {offset : ℕ} (hflight : s.inFlight e = some (p, offset)) :
      Step s (.ack e)
        { s with
          topic := s.topic.commit p (offset + 1)
          inFlight := update s.inFlight e none
          events := s.events ++ [.acked e] }
  | restart :
      Step s .restart
        { topic := s.topic.restart, inFlight := fun _ => none, events := s.events ++ [.restarted] }

def AllGarbage (s : State P) (batch : List P) : Prop :=
  batch ≠ [] ∧ ∀ records topic, s.topic.poll batch = some (records, topic) →
    records.filterMap (·.2.2) = []

/-- An acknowledged entry is at the committed offset of its partition, and no batch is all garbage.
-/
def InOrder (_ : List (Move P)) (s : State P) : Move P → Prop
  | .ack e => ∀ p offset, s.inFlight e = some (p, offset) → s.topic.committed p = offset
  | .popBatch limit batch => 1 ≤ limit → ¬AllGarbage s batch
  | _ => True

def KeepsGarbage (s : State P) : Prop :=
  ∀ p i, (s.topic.log p)[i]? = some none → s.topic.committed p ≤ i

/-- What holds throughout. -/
structure Invariant (s : State P) : Prop where
  /-- What is below a commit was acknowledged. -/
  below : ∀ (p : P) (i : ℕ), i < s.topic.committed p →
    ∃ e, (s.topic.log p)[i]? = some (some e) ∧ .acked e ∈ s.events
  acknowledged : ∀ (p : P) (i : ℕ) (e : UUID), (s.topic.log p)[i]? = some (some e) →
      .acked e ∈ s.events →
    i < s.topic.committed p
  committed : ∀ p, s.topic.committed p ≤ s.topic.position p
  bound : ∀ p, s.topic.position p ≤ (s.topic.log p).length
  stored : ∀ e, .stored e ∈ s.events → ∃ (p : P) (i : ℕ), (s.topic.log p)[i]? = some (some e)
  known : ∀ (p : P) (i : ℕ) (e : UUID), (s.topic.log p)[i]? = some (some e) → .stored e ∈ s.events
  acked : ∀ e, .acked e ∈ s.events → .stored e ∈ s.events
  once : ∀ (p : P) (i : ℕ) (q : P) (j : ℕ) (e : UUID),
    (s.topic.log p)[i]? = some (some e) → (s.topic.log q)[j]? = some (some e) → p = q ∧ i = j
  inFlight : ∀ (e : UUID) (p : P) (i : ℕ), s.inFlight e = some (p, i) →
    (s.topic.log p)[i]? = some (some e) ∧ i < s.topic.position p ∧ e ∈ sinceRestart s.events
  /-- What was read was acknowledged, or was popped since the last restart. -/
  handed : ∀ (p : P) (i : ℕ) (e : UUID), (s.topic.log p)[i]? = some (some e) →
    i < s.topic.position p → .acked e ∈ s.events ∨ e ∈ sinceRestart s.events
  history : ForgetsOnlyAcked s.events

variable {s s' : State P} {a : Move P} {e : UUID} {p : P} {i offset : ℕ}
  {records : List (P × ℕ × Option UUID)} {inFlight : UUID → Option (P × ℕ)} {batch : List P}
  {topic : PartitionedLog P (Option UUID)}

omit [DecidableEq P] in
theorem register_cases (h : records.foldl register inFlight e = some (p, i)) :
    inFlight e = some (p, i) ∨ (p, i, some e) ∈ records := by
  induction records generalizing inFlight with
  | nil => exact Or.inl h
  | cons record records ih =>
    rcases ih h with hflight | hmem
    · obtain ⟨q, j, _ | e'⟩ := record
      · exact Or.inl hflight
      · change update inFlight e' (some (q, j)) e = some (p, i) at hflight
        by_cases he : e = e'
        · subst he
          rw [update_self] at hflight
          cases hflight
          exact Or.inr mem_cons_self
        · rw [update_of_ne he] at hflight
          exact Or.inl hflight
    · exact Or.inr (mem_cons_of_mem _ hmem)

section

variable (h : Invariant s)

include h

omit [DecidableEq P] in
theorem Invariant.keepsGarbage : KeepsGarbage s := by
  intro p i hnone
  by_contra hlt
  obtain ⟨e, he, -⟩ := h.below p i (not_le.mp hlt)
  cases he.symm.trans hnone

theorem Invariant.push (hfresh : .stored e ∉ s.events) :
    Invariant { s with topic := s.topic.append p (some e), events := s.events ++ [.stored e] } := by
  have hnew : ∀ {q j e'}, ((s.topic.append p (some e)).log q)[j]? = some (some e') →
      (s.topic.log q)[j]? = some (some e') ∨ q = p ∧ j = (s.topic.log p).length ∧ e' = e := by
    intro q j e' hrecord
    refine (getElem?_of_append hrecord).imp_right fun ⟨hq, hj, he⟩ => ?_
    exact ⟨hq, hj, Option.some.inj he⟩
  constructor
  · intro q j hlt
    obtain ⟨e', he', hack⟩ := h.below q j hlt
    exact ⟨e', getElem?_append he', acked_stored.mpr hack⟩
  · intro q j e' hrecord hack
    rcases hnew hrecord with hold | ⟨-, -, rfl⟩
    · exact h.acknowledged q j e' hold (acked_stored.mp hack)
    · exact absurd (h.acked e' (acked_stored.mp hack)) hfresh
  · exact h.committed
  · exact fun q => (h.bound q).trans length_le_append
  · intro e' hmem
    rcases stored_stored.mp hmem with hold | rfl
    · obtain ⟨q, j, hj⟩ := h.stored e' hold
      exact ⟨q, j, getElem?_append hj⟩
    · refine ⟨p, (s.topic.log p).length, ?_⟩
      rw [log_append_self]
      exact List.getElem?_concat_length
  · intro q j e' hrecord
    rcases hnew hrecord with hold | ⟨-, -, rfl⟩
    · exact stored_stored.mpr (Or.inl (h.known q j e' hold))
    · exact stored_stored.mpr (Or.inr rfl)
  · exact fun e' hack => stored_stored.mpr (Or.inl (h.acked e' (acked_stored.mp hack)))
  · intro q j q' j' e' hj hj'
    rcases hnew hj with hold | ⟨rfl, rfl, rfl⟩
    · rcases hnew hj' with hold' | ⟨rfl, rfl, rfl⟩
      · exact h.once q j q' j' e' hold hold'
      · exact absurd (h.known q j e' hold) hfresh
    · rcases hnew hj' with hold' | ⟨rfl, rfl, -⟩
      · exact absurd (h.known q' j' e' hold') hfresh
      · exact ⟨rfl, rfl⟩
  · intro e' q j hj
    obtain ⟨hrecord, hlt, hpopped⟩ := h.inFlight e' q j hj
    rw [BrokerDlq.sinceRestart_snoc]
    exact ⟨getElem?_append hrecord, hlt, hpopped⟩
  · intro q j e' hrecord hlt
    rw [BrokerDlq.sinceRestart_snoc, acked_stored]
    rcases hnew hrecord with hold | ⟨rfl, rfl, rfl⟩
    · exact h.handed q j e' hold hlt
    · -- the new record is beyond what was read
      exact absurd hlt (not_lt.mpr (h.bound q))
  · exact h.history.snoc nofun nofun nofun

theorem Invariant.corrupt : Invariant { s with topic := s.topic.append p none } := by
  have hold : ∀ {q : P} {j : ℕ} {e : UUID}, ((s.topic.append p none).log q)[j]? = some (some e) →
      (s.topic.log q)[j]? = some (some e) := by
    intro q j e hrecord
    exact (getElem?_of_append hrecord).resolve_right fun heq => nomatch heq.2.2
  constructor
  · intro q j hlt
    obtain ⟨e, he, hack⟩ := h.below q j hlt
    exact ⟨e, getElem?_append he, hack⟩
  · exact fun q j e hrecord => h.acknowledged q j e (hold hrecord)
  · exact h.committed
  · exact fun q => (h.bound q).trans length_le_append
  · intro e hmem
    obtain ⟨q, j, hj⟩ := h.stored e hmem
    exact ⟨q, j, getElem?_append hj⟩
  · exact fun q j e hrecord => h.known q j e (hold hrecord)
  · exact h.acked
  · exact fun q j q' j' e hj hj' => h.once q j q' j' e (hold hj) (hold hj')
  · intro e q j hj
    exact (h.inFlight e q j hj).imp_left getElem?_append
  · exact fun q j e hrecord => h.handed q j e (hold hrecord)
  · exact h.history

theorem Invariant.pop (hpoll : s.topic.poll batch = some (records, topic))
    (hall : batch = [] → s.topic.Exhausted) (hgarbage : ¬AllGarbage s batch) :
    Invariant { s with
      topic := topic
      inFlight := records.foldl register s.inFlight
      events := s.events ++ [.popped (records.filterMap (·.2.2))] } := by
  obtain ⟨hlog, hcommitted⟩ := poll_same hpoll
  have hread : ∀ {q j x}, (q, j, x) ∈ records ↔ (s.topic.log q)[j]? = some x ∧
      s.topic.position q ≤ j ∧ j < topic.position q := mem_poll hpoll
  have hle : ∀ q, s.topic.position q ≤ topic.position q := fun q =>
    poll_position_le hpoll
  have hentry : ∀ {e}, e ∈ records.filterMap (·.2.2) ↔ ∃ q j, (q, j, some e) ∈ records := by
    intro e
    rw [mem_filterMap]
    constructor
    · rintro ⟨⟨q, j, _⟩, hm, rfl⟩
      exact ⟨q, j, hm⟩
    · rintro ⟨q, j, hj⟩
      exact ⟨_, hj, rfl⟩
  have hsince : sinceRestart (s.events ++ [BrokerDlq.Event.popped (records.filterMap (·.2.2))]) =
      sinceRestart s.events ++ records.filterMap (·.2.2) := BrokerDlq.sinceRestart_snoc
  constructor
  · intro q j hlt
    rw [hcommitted] at hlt
    obtain ⟨e, he, hack⟩ := h.below q j hlt
    exact ⟨e, hlog ▸ he, acked_popped.mpr hack⟩
  · intro q j e hrecord hack
    rw [hlog] at hrecord
    rw [hcommitted]
    exact h.acknowledged q j e hrecord (acked_popped.mp hack)
  · intro q
    rw [hcommitted]
    exact (h.committed q).trans (hle q)
  · intro q
    rw [hlog]
    exact poll_position_le_length h.bound hpoll q
  · intro e hmem
    rw [hlog]
    exact h.stored e (stored_popped.mp hmem)
  · intro q j e hrecord
    rw [hlog] at hrecord
    exact stored_popped.mpr (h.known q j e hrecord)
  · exact fun e hack => stored_popped.mpr (h.acked e (acked_popped.mp hack))
  · intro q j q' j' e hj hj'
    rw [hlog] at hj hj'
    exact h.once q j q' j' e hj hj'
  · intro e q j hj
    rw [hlog, hsince]
    rcases register_cases hj with hold | hnew
    · obtain ⟨hrecord, hlt, hpopped⟩ := h.inFlight e q j hold
      exact ⟨hrecord, hlt.trans_le (hle q), mem_append_left _ hpopped⟩
    · obtain ⟨hrecord, -, hlt⟩ := hread.mp hnew
      exact ⟨hrecord, hlt, mem_append_right _ (hentry.mpr ⟨q, j, hnew⟩)⟩
  · intro q j e hrecord hlt
    rw [hlog] at hrecord
    rw [hsince, acked_popped]
    rcases lt_or_ge j (s.topic.position q) with hold | hnew
    · exact (h.handed q j e hrecord hold).imp_right (mem_append_left _)
    · exact Or.inr (mem_append_right _ (hentry.mpr ⟨q, j, hread.mpr ⟨hrecord, hnew, hlt⟩⟩))
  · refine h.history.snoc (fun heq e hmem hnot => ?_) (fun entries heq e he hack => ?_) nofun
    · -- nothing was read, so everything had been read before
      have hnil := BrokerDlq.Event.popped.inj heq
      have hbatch : batch = [] := by
        by_contra hne
        refine hgarbage ⟨hne, fun records' topic' hpoll' => ?_⟩
        cases hpoll.symm.trans hpoll'
        exact hnil
      obtain ⟨q, j, hj⟩ := h.stored e hmem
      have hlt := lt_position_of_exhausted (hall hbatch) hj
      exact (h.handed q j e hj hlt).resolve_left hnot
    · rw [← BrokerDlq.Event.popped.inj heq] at he
      obtain ⟨q, j, hj⟩ := hentry.mp he
      obtain ⟨hrecord, hlow, -⟩ := hread.mp hj
      have hlt := h.acknowledged q j e hrecord hack
      exact absurd (hlt.trans_le (h.committed q)) (not_lt.mpr hlow)

theorem Invariant.ack (hflight : s.inFlight e = some (p, offset))
    (horder : s.topic.committed p = offset) :
    Invariant { s with
      topic := s.topic.commit p (offset + 1)
      inFlight := update s.inFlight e none
      events := s.events ++ [.acked e] } := by
  obtain ⟨hrecord, hread, hpopped⟩ := h.inFlight e p offset hflight
  -- the commit goes on by one record
  have hcommit : ∀ {q j}, j < (s.topic.commit p (offset + 1)).committed q ↔
      j < s.topic.committed q ∨ q = p ∧ j = offset := by
    intro q j
    by_cases hq : q = p
    · subst hq
      rw [committed_commit_self, Nat.lt_succ_iff_lt_or_eq, horder]
      simp
    · rw [committed_commit_of_ne hq]
      simp [hq]
  constructor
  · intro q j hlt
    rcases hcommit.mp hlt with hold | ⟨rfl, rfl⟩
    · obtain ⟨e', he', hack⟩ := h.below q j hold
      exact ⟨e', he', acked_acked.mpr (Or.inl hack)⟩
    · exact ⟨e, hrecord, acked_acked.mpr (Or.inr rfl)⟩
  · intro q j e' hrecord' hack
    rcases acked_acked.mp hack with hold | rfl
    · exact hcommit.mpr (Or.inl (h.acknowledged q j e' hrecord' hold))
    · exact hcommit.mpr (Or.inr (h.once q j p offset e' hrecord' hrecord))
  · intro q
    by_cases hq : q = p
    · subst hq
      rw [committed_commit_self]
      exact hread
    · rw [committed_commit_of_ne hq]
      exact h.committed q
  · exact h.bound
  · exact fun e' hmem => h.stored e' (stored_acked.mp hmem)
  · exact fun q j e' hrecord' => stored_acked.mpr (h.known q j e' hrecord')
  · intro e' hack
    rcases acked_acked.mp hack with hold | rfl
    · exact stored_acked.mpr (h.acked e' hold)
    · exact stored_acked.mpr (h.known p offset e' hrecord)
  · exact h.once
  · intro e' q j hj
    change update s.inFlight e none e' = some (q, j) at hj
    by_cases he : e' = e
    · rw [he, update_self] at hj
      cases hj
    · rw [update_of_ne he] at hj
      rw [BrokerDlq.sinceRestart_snoc]
      exact h.inFlight e' q j hj
  · intro q j e' hrecord' hlt
    rw [BrokerDlq.sinceRestart_snoc, acked_acked]
    exact (h.handed q j e' hrecord' hlt).imp_left Or.inl
  · refine h.history.snoc nofun nofun fun e' heq => ?_
    cases heq
    exact hpopped

omit [DecidableEq P] in
theorem Invariant.restart : Invariant
    { topic := s.topic.restart, inFlight := fun _ => none,
      events := s.events ++ [.restarted] } := by
  constructor
  · intro q j hlt
    obtain ⟨e, he, hack⟩ := h.below q j hlt
    exact ⟨e, he, acked_restarted.mpr hack⟩
  · exact fun q j e hrecord hack => h.acknowledged q j e hrecord (acked_restarted.mp hack)
  · exact fun q => le_rfl
  · exact fun q => (h.committed q).trans (h.bound q)
  · exact fun e hmem => h.stored e (stored_restarted.mp hmem)
  · exact fun q j e hrecord => stored_restarted.mpr (h.known q j e hrecord)
  · exact fun e hack => stored_restarted.mpr (h.acked e (acked_restarted.mp hack))
  · exact h.once
  · exact fun e q j hj => nomatch hj
  · -- what is read again is not below a commit
    intro q j e hrecord hlt
    obtain ⟨e', he', hack⟩ := h.below q j hlt
    cases hrecord.symm.trans he'
    exact Or.inl (acked_restarted.mpr hack)
  · exact h.history.snoc nofun nofun nofun

theorem Invariant.step {past : List (Move P)} (horder : InOrder past s a) (hstep : Step s a s') :
    Invariant s' := by
  cases hstep with
  | push hfresh => exact h.push hfresh
  | corrupt => exact h.corrupt
  | refused | unknown => exact h
  | pop hlimit hlength hpoll hall => exact h.pop hpoll hall (horder hlimit)
  | ack hflight => exact h.ack hflight (horder _ _ hflight)
  | restart => exact h.restart

end

theorem invariant_of_run {moves : List (Move P)} (h : Guarded Step InOrder {} moves s) :
    Invariant s := by
  refine h.invariant (I := fun _ s => Invariant s) ?_ fun _ _ _ _ _ hok hstep hs =>
    hs.step hok hstep
  constructor
  · exact fun _ _ hlt => absurd hlt (Nat.not_lt_zero _)
  · exact fun _ _ _ hrecord => by simp at hrecord
  · exact fun _ => le_rfl
  · exact fun _ => le_rfl
  · exact fun _ h => absurd h not_mem_nil
  · exact fun _ _ _ hrecord => by simp at hrecord
  · exact fun _ h => absurd h not_mem_nil
  · exact fun _ _ _ _ _ hrecord => by simp at hrecord
  · exact fun _ _ _ h => nomatch h
  · exact fun _ _ _ hrecord => by simp at hrecord
  · exact .nil

end

end KafkaDLQ

/-! ## Both queues -/

/-- **Broker dead-letter queues forget only what was acknowledged**, as long as the relay of Redis
is only restarted when all that it popped is acknowledged, that of Kafka acknowledges in order, and
no batch is all garbage. -/
theorem dlq_forgets_only_acked {P : Type} [DecidableEq P] :
    (∀ moves s, Guarded RedisStreamDLQ.Step RedisStreamDLQ.Settled {} moves s →
      ForgetsOnlyAcked s.events ∧ RedisStreamDLQ.KeepsGarbage s) ∧
    ∀ moves (s : KafkaDLQ.State P), Guarded KafkaDLQ.Step KafkaDLQ.InOrder {} moves s →
      ForgetsOnlyAcked s.events ∧ KafkaDLQ.KeepsGarbage s := by
  constructor
  · intro moves s h
    have hinv := RedisStreamDLQ.invariant_of_run h
    exact ⟨hinv.history, hinv.garbage⟩
  · intro moves s h
    have hinv := KafkaDLQ.invariant_of_run h
    exact ⟨hinv.history, hinv.keepsGarbage⟩

/-- An entry that is redriven before the relay is restarted. -/
theorem dlq_forgets_only_acked_redriven :
    (ForgetsOnlyAcked
      (([.push 1, .popBatch 10, .ack 1, .restart, .popBatch 10] : List RedisStreamDLQ.Move).foldl
        RedisStreamDLQ.State.act {}).events) ∧
    ∃ s : KafkaDLQ.State Unit,
      s.events = [.stored 1, .popped [1], .acked 1, .restarted, .popped []] ∧
      ForgetsOnlyAcked s.events := by
  refine ⟨(dlq_forgets_only_acked (P := Unit)).1
    [.push 1, .popBatch 10, .ack 1, .restart, .popBatch 10] _ ?_ |>.1, ?_⟩
  · refine .snoc (.snoc (.snoc (.snoc (.snoc .nil trivial ⟨?_, rfl⟩) ?_ ⟨nofun, rfl⟩) trivial
      ⟨nofun, rfl⟩) ?_ ⟨nofun, rfl⟩) ?_ ⟨nofun, rfl⟩
    · exact fun _ h => absurd h.2 (by decide)
    · intro entries hpopped e he
      change .popped entries ∈ [BrokerDlq.Event.stored 1, .popped [1], .acked 1] at hpopped
      obtain rfl : entries = [1] := by simpa using hpopped
      obtain rfl := mem_singleton.mp he
      decide
    · exact fun _ h => absurd rfl h.1
    · exact fun _ _ => not_mem_nil
  · have h : Guarded KafkaDLQ.Step KafkaDLQ.InOrder ({} : KafkaDLQ.State Unit)
        [.push 1 (), .popBatch 10 [()], .ack 1, .restart, .popBatch 10 []] _ :=
      .snoc (.snoc (.snoc (.snoc (.snoc .nil trivial (.push not_mem_nil))
        (fun _ h => absurd (h.2 _ _ rfl) (by decide))
        (.pop (by decide) (by decide) rfl nofun)) (fun _ _ h => by cases h; rfl)
        (.ack rfl)) trivial .restart) (fun _ h => h.1 rfl)
        (.pop (by decide) (by decide) rfl fun _ _ => rfl)
    exact ⟨_, rfl, (dlq_forgets_only_acked.2 _ _ h).1⟩

/-- Redis does not hand out again what was pending before a restart, and Kafka forgets an entry, or
what cannot be decoded, when a later entry is acknowledged. -/
theorem dlq_forgets_what_failed :
    (∃ s, Run RedisStreamDLQ.Step {} [.push 1, .popBatch 10, .restart, .popBatch 10] s ∧
      ¬ForgetsOnlyAcked s.events) ∧
    (∃ s : KafkaDLQ.State Unit, Run KafkaDLQ.Step {}
        [.push 1 (), .push 2 (), .popBatch 10 [(), ()], .ack 2, .restart, .popBatch 10 []] s ∧
      ¬ForgetsOnlyAcked s.events) ∧
    ∃ s : KafkaDLQ.State Unit,
      Run KafkaDLQ.Step {} [.corrupt (), .push 1 (), .popBatch 10 [(), ()], .ack 1] s ∧
        ¬KafkaDLQ.KeepsGarbage s := by
  have hredis : Run RedisStreamDLQ.Step {} [.push 1, .popBatch 10, .restart, .popBatch 10] _ :=
    .cons ⟨fun _ _ => not_mem_nil, rfl⟩ (.cons ⟨nofun, rfl⟩ (.cons ⟨nofun, rfl⟩
      (.cons ⟨nofun, rfl⟩ (.nil _))))
  have hkafka : Run KafkaDLQ.Step ({} : KafkaDLQ.State Unit)
      [.push 1 (), .push 2 (), .popBatch 10 [(), ()], .ack 2, .restart, .popBatch 10 []] _ :=
    .cons (.push not_mem_nil) (.cons (.push (by simp)) (.cons
      (.pop (by decide) (by decide) rfl nofun) (.cons (.ack rfl) (.cons .restart (.cons
      (.pop (by decide) (by decide) rfl fun _ _ => rfl) (.nil _))))))
  have hgarbage : Run KafkaDLQ.Step ({} : KafkaDLQ.State Unit)
      [.corrupt (), .push 1 (), .popBatch 10 [(), ()], .ack 1] _ :=
    .cons .corrupt (.cons (.push not_mem_nil) (.cons
      (.pop (by decide) (by decide) rfl nofun) (.cons (.ack rfl) (.nil _))))
  refine ⟨⟨_, hredis, fun h => ?_⟩, ⟨_, hkafka, fun h => ?_⟩, ⟨_, hgarbage, fun h => ?_⟩⟩
  · obtain ⟨entries, hmem, -⟩ := h.redelivered [.stored 1, .popped [1]] [] rfl (by simp) 1 (by simp)
      (by simp)
    exact absurd hmem not_mem_nil
  · obtain ⟨entries, hmem, -⟩ := h.redelivered [.stored 1, .stored 2, .popped [1, 2], .acked 2] []
      rfl (by simp) 1 (by simp) (by simp)
    exact absurd hmem not_mem_nil
  · exact absurd (h () 0 rfl) (by decide)

end Varco
