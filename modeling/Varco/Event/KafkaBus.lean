import Varco.Foundations.Broker
import Varco.Foundations.Run

/-!
# The consumer loop of Kafka

`KafkaEventBus._consume_loop` of `varco_kafka.bus`, for each `KafkaDeliverySemantics`, with handlers
that return, raise, or publish on the bus themselves, and with crashes and restarts.

A commit speaks about all that was read before it. So a message that failed is lost with the next
commit, unless the loop is started anew before that (`Remembered`): the loop goes on after a
failure, and `consumer.commit()` is not told about it. With `AT_MOST_ONCE` the commit comes first,
and nothing is dispatched twice. With `EXACTLY_ONCE` a handler runs inside a transaction of the
producer with which it would publish.
-/

namespace Varco

open List PartitionedLog

inductive KafkaDeliverySemantics
  | atLeastOnce
  | atMostOnce
  | exactlyOnce
  deriving DecidableEq

namespace KafkaEventBus

section

variable {P E : Type}

/-- What has happened to the message of a partition at an offset. -/
inductive Event (P : Type)
  | dispatched (p : P) (offset : ℕ)
  | returned (p : P) (offset : ℕ)
  | publishRefused (p : P) (offset : ℕ)
  deriving DecidableEq

/-- Where the loop is: it opens a transaction for a message, dispatches it, or commits. -/
inductive Phase (P : Type)
  | stopped
  | polling
  | opening (p : P) (offset : ℕ)
  | dispatching (p : P) (offset : ℕ)
  | committing (p : P) (offset : ℕ)

/-- The topics with the offsets of the group, the loop, the messages that have failed since it was
started, and what has happened. A message that cannot be deserialized is `none`. -/
structure State (P E : Type) where
  topic : PartitionedLog P (Option E) := {}
  phase : Phase P := .stopped
  failed : List (P × ℕ) := []
  events : List (Event P) := []

/-- What happens next. A call that raises may have been executed by the broker all the same. -/
inductive Move (P E : Type)
  | produce (p : P) (message : Option E)
  | start
  | poll (p : P)
  | begin (opened : Bool)
  | publish (p : P) (message : Option E)
  | finish (raises : Bool)
  | commit (executed raises : Bool)
  | crash

def State.receive (sem : KafkaDeliverySemantics) (s : State P E) (p : P) (offset : ℕ) : State P E :=
  match sem with
  | .atMostOnce => { s with phase := .committing p offset }
  | .exactlyOnce => { s with phase := .opening p offset }
  | .atLeastOnce =>
    { s with phase := .dispatching p offset, events := s.events ++ [.dispatched p offset] }

/-- The `except Exception` of the loop, for a message that was not dispatched. -/
def State.fail (s : State P E) (p : P) (offset : ℕ) : State P E :=
  { s with phase := .polling, failed := s.failed ++ [(p, offset)] }

variable [DecidableEq P]

/-- What a commit changes: `consumer.commit()`, or the offset of a transaction. -/
def commitOffsets (sem : KafkaDeliverySemantics) (topic : PartitionedLog P (Option E)) (p : P)
    (offset : ℕ) : PartitionedLog P (Option E) :=
  match sem with
  | .exactlyOnce => topic.commit p (offset + 1)
  | .atLeastOnce | .atMostOnce => topic.commitAll

def State.act (sem : KafkaDeliverySemantics) (s : State P E) : Move P E → Option (State P E)
  | .produce p message => some { s with topic := s.topic.append p message }
  | .start =>
    match s.phase with
    | .stopped => some { s with topic := s.topic.restart, phase := .polling, failed := [] }
    | _ => none
  | .poll p =>
    match s.phase, s.topic.next p with
    | .polling, some none => some { s with topic := s.topic.handOut p }
    | .polling, some (some _) =>
      some ({ s with topic := s.topic.handOut p }.receive sem p (s.topic.position p))
    | _, _ => none
  | .begin opened =>
    match s.phase with
    | .opening p offset =>
      some (if opened then
        { s with phase := .dispatching p offset, events := s.events ++ [.dispatched p offset] }
      else s.fail p offset)
    | _ => none
  | .publish q message =>
    match s.phase with
    | .dispatching p offset =>
      -- a transaction is open, and `publish` opens another
      if sem = .exactlyOnce then some { s with events := s.events ++ [.publishRefused p offset] }
      else some { s with topic := s.topic.append q message }
    | _ => none
  | .finish raises =>
    match s.phase with
    | .dispatching p offset =>
      some (if raises then s.fail p offset
      else
        { s with
          phase := if sem = .atMostOnce then .polling else .committing p offset
          events := s.events ++ [.returned p offset] })
    | _ => none
  | .commit executed raises =>
    match s.phase with
    | .committing p offset =>
      let topic := if executed then commitOffsets sem s.topic p offset else s.topic
      if raises then some { s with topic := topic, phase := .polling }
      else if executed then
        some (if sem = .atMostOnce then
          { s with
            topic := topic
            phase := .dispatching p offset
            events := s.events ++ [.dispatched p offset] }
        else { s with topic := topic, phase := .polling })
      else none
    | _ => none
  | .crash => some { s with phase := .stopped }

/-- **No failed message is lost**: what is below a commit could not be deserialized, or its dispatch
has returned. -/
def KeepsFailed (s : State P E) : Prop :=
  ∀ (p : P) (i : ℕ) (e : E), (s.topic.log p)[i]? = some (some e) → i < s.topic.committed p →
    .returned p i ∈ s.events

/-- Before a commit there is no failure that it would hide: each message that has failed since the
start, of the partition in the case of a transaction, has returned earlier. And no handler publishes
inside a transaction. -/
def Remembered (sem : KafkaDeliverySemantics) (_ : List (Move P E)) (s : State P E) :
    Move P E → Prop
  | .commit true _ => sem ≠ .atMostOnce → ∀ m ∈ s.failed,
    (sem = .exactlyOnce → ∃ offset, s.phase = .committing m.1 offset) → .returned m.1 m.2 ∈ s.events
  | .publish _ _ => sem ≠ .exactlyOnce
  | _ => True

variable {sem : KafkaDeliverySemantics} {s s' : State P E} {a : Move P E} {p q : P} {offset i : ℕ}
  {message : Option E}

/-! ## Commits after the dispatch -/

/-- The message that the loop has in hand is below the position, and has returned before it is
committed. -/
def Phase.Right (s : State P E) : Phase P → Prop
  | .stopped | .polling => True
  | .opening p offset | .dispatching p offset => offset < s.topic.position p
  | .committing p offset => offset < s.topic.position p ∧ .returned p offset ∈ s.events

/-- The message that the loop has in hand, before its dispatch returns. -/
def Phase.current : Phase P → Option (P × ℕ)
  | .opening p offset | .dispatching p offset => some (p, offset)
  | _ => none

/-- What holds throughout, unless the commit comes first. -/
structure Invariant (s : State P E) : Prop where
  committed : ∀ p, s.topic.committed p ≤ s.topic.position p
  bound : ∀ p, s.topic.position p ≤ (s.topic.log p).length
  keeps : KeepsFailed s
  /-- What was read since the start has returned, has failed, or is in hand. -/
  handed : s.phase ≠ .stopped → ∀ (p : P) (i : ℕ) (e : E), (s.topic.log p)[i]? = some (some e) →
    i < s.topic.position p →
      .returned p i ∈ s.events ∨ (p, i) ∈ s.failed ∨ s.phase.current = some (p, i)
  right : s.phase.Right s

theorem Invariant.produce (h : Invariant s) :
    Invariant { s with topic := s.topic.append p message } := by
  -- what is new is beyond what was read
  have hold : ∀ {q i e}, ((s.topic.append p message).log q)[i]? = some (some e) →
      i < s.topic.position q → (s.topic.log q)[i]? = some (some e) := by
    intro q i e hrecord hlt
    rcases getElem?_of_append hrecord with hrecord | ⟨rfl, rfl, -⟩
    · exact hrecord
    · exact absurd hlt (not_lt.mpr (h.bound q))
  constructor
  · exact h.committed
  · exact fun q => (h.bound q).trans length_le_append
  · exact fun q i e hrecord hlt =>
      h.keeps q i e (hold hrecord (hlt.trans_le (h.committed q))) hlt
  · exact fun hphase q i e hrecord hlt => h.handed hphase q i e (hold hrecord hlt) hlt
  · have hright := h.right
    cases hphase : s.phase with
    | stopped | polling => trivial
    | opening | dispatching | committing =>
      rw [hphase] at hright
      exact hright

omit [DecidableEq P] in
theorem Invariant.start (h : Invariant s) :
    Invariant { s with topic := s.topic.restart, phase := .polling, failed := [] } where
  committed _ := le_rfl
  bound p := (h.committed p).trans (h.bound p)
  keeps := h.keeps
  handed _ p i e hrecord hlt := Or.inl (h.keeps p i e hrecord hlt)
  right := trivial

theorem Invariant.handOut (h : Invariant s) (hphase : s.phase = .polling)
    (hnext : s.topic.next p = some message) (phase : Phase P) (more : List (Event P))
    (hright : phase.Right { s with
      topic := s.topic.handOut p, phase := phase, events := s.events ++ more })
    (hcurrent : ∀ e, message = some e → phase.current = some (p, s.topic.position p)) :
    Invariant { s with
      topic := s.topic.handOut p, phase := phase, events := s.events ++ more } := by
  constructor
  · exact fun q => (h.committed q).trans position_le_handOut
  · intro q
    by_cases hq : q = p
    · rw [hq, position_handOut_self]
      exact (List.getElem?_eq_some_iff.mp hnext).1
    · rw [position_handOut_of_ne hq]
      exact h.bound q
  · exact fun q i e hrecord hlt => mem_append_left _ (h.keeps q i e hrecord hlt)
  · intro _ q i e hrecord hlt
    by_cases hnew : i < s.topic.position q
    · have hpolling : s.phase ≠ .stopped := by rw [hphase]; nofun
      rcases h.handed hpolling q i e hrecord hnew with hreturned | hfailed | hcurrent
      · exact Or.inl (mem_append_left _ hreturned)
      · exact Or.inr (Or.inl hfailed)
      · rw [hphase] at hcurrent
        cases hcurrent
    · by_cases hq : q = p
      · subst hq
        rw [position_handOut_self] at hlt
        obtain rfl : i = s.topic.position q := le_antisymm (Nat.lt_succ_iff.mp hlt) (not_lt.mp hnew)
        cases hnext.symm.trans hrecord
        exact Or.inr (Or.inr (hcurrent e rfl))
      · rw [position_handOut_of_ne hq] at hlt
        exact absurd hlt hnew
  · exact hright

omit [DecidableEq P] in
theorem Invariant.next (h : Invariant s) (hphase : s.phase ≠ .stopped)
    (hcurrent : s.phase.current = some (p, offset)) (phase : Phase P) (failed : List (P × ℕ))
    (more : List (Event P))
    (hright : phase.Right { s with
      phase := phase, failed := s.failed ++ failed, events := s.events ++ more })
    (hdone : .returned p offset ∈ more ∨ (p, offset) ∈ failed ∨
      phase.current = some (p, offset)) :
    Invariant { s with
      phase := phase, failed := s.failed ++ failed, events := s.events ++ more } := by
  constructor
  · exact h.committed
  · exact h.bound
  · exact fun q i e hrecord hlt => mem_append_left _ (h.keeps q i e hrecord hlt)
  · intro _ q i e hrecord hlt
    rcases h.handed hphase q i e hrecord hlt with hreturned | hfailed | heq
    · exact Or.inl (mem_append_left _ hreturned)
    · exact Or.inr (Or.inl (mem_append_left _ hfailed))
    · cases hcurrent.symm.trans heq
      rcases hdone with hreturned | hfailed | hstill
      · exact Or.inl (mem_append_right _ hreturned)
      · exact Or.inr (Or.inl (mem_append_right _ hfailed))
      · exact Or.inr (Or.inr hstill)
  · exact hright

omit [DecidableEq P] in
theorem Invariant.crash (h : Invariant s) : Invariant { s with phase := .stopped } where
  committed := h.committed
  bound := h.bound
  keeps := h.keeps
  handed hphase := absurd rfl hphase
  right := trivial

omit [DecidableEq P] in
theorem Invariant.polling (h : Invariant s) (hphase : s.phase = .committing p offset) :
    Invariant { s with phase := .polling } where
  committed := h.committed
  bound := h.bound
  keeps := h.keeps
  handed _ q i e hrecord hlt := by
    have hhanded := h.handed (by rw [hphase]; nofun) q i e hrecord hlt
    rwa [hphase] at hhanded
  right := trivial

theorem committed_commitOffsets (hlt : offset < s.topic.position p)
    (h : i < (commitOffsets sem s.topic p offset).committed q) :
    i < s.topic.committed q ∨ i < s.topic.position q ∧ (sem = .exactlyOnce → q = p) := by
  cases sem with
  | atLeastOnce | atMostOnce => exact Or.inr ⟨h, nofun⟩
  | exactlyOnce =>
    change i < (s.topic.commit p (offset + 1)).committed q at h
    by_cases hq : q = p
    · subst hq
      rw [committed_commit_self] at h
      exact Or.inr ⟨(Nat.lt_succ_iff.mp h).trans_lt hlt, fun _ => rfl⟩
    · rw [committed_commit_of_ne hq] at h
      exact Or.inl h

theorem commitOffsets_le (hlt : offset < s.topic.position p)
    (h : ∀ q, s.topic.committed q ≤ s.topic.position q) (q : P) :
    (commitOffsets sem s.topic p offset).committed q ≤ s.topic.position q := by
  by_contra hnot
  rcases committed_commitOffsets hlt (not_le.mp hnot) with hold | ⟨hnew, -⟩
  · exact absurd (hold.trans_le (h q)) (lt_irrefl _)
  · exact absurd hnew (lt_irrefl _)

theorem commitOffsets_same : (commitOffsets sem s.topic p offset).log = s.topic.log ∧
    (commitOffsets sem s.topic p offset).position = s.topic.position := by
  cases sem <;> exact ⟨rfl, rfl⟩

/-- **A commit that hides no failure.** -/
theorem Invariant.commit (h : Invariant s) (hphase : s.phase = .committing p offset)
    (hfailed : ∀ m ∈ s.failed, (sem = .exactlyOnce → m.1 = p) → .returned m.1 m.2 ∈ s.events) :
    Invariant { s with topic := commitOffsets sem s.topic p offset, phase := .polling } := by
  have hright := h.right
  rw [hphase] at hright
  obtain ⟨hlt, hreturned⟩ := hright
  have hrunning : s.phase ≠ .stopped := by rw [hphase]; nofun
  have hsame : (commitOffsets sem s.topic p offset).log = s.topic.log ∧
      (commitOffsets sem s.topic p offset).position = s.topic.position := commitOffsets_same
  obtain ⟨hlog, hposition⟩ := hsame
  constructor
  · intro q
    rw [hposition]
    exact commitOffsets_le hlt h.committed q
  · intro q
    rw [hposition, hlog]
    exact h.bound q
  · intro q i e hrecord hbelow
    rw [hlog] at hrecord
    rcases committed_commitOffsets hlt hbelow with hold | ⟨hnew, hq⟩
    · exact h.keeps q i e hrecord hold
    · rcases h.handed hrunning q i e hrecord hnew with hreturned | hmem | hcurrent
      · exact hreturned
      · exact hfailed _ hmem hq
      · rw [hphase] at hcurrent
        cases hcurrent
  · intro _ q i e hrecord hbelow
    rw [hlog] at hrecord
    rw [hposition] at hbelow
    have hhanded := h.handed hrunning q i e hrecord hbelow
    rwa [hphase] at hhanded
  · trivial

theorem Invariant.act (h : Invariant s) (hsem : sem ≠ .atMostOnce) {past : List (Move P E)}
    (hok : Remembered sem past s a) (hact : s.act sem a = some s') : Invariant s' := by
  have hright := h.right
  cases a with
  | produce p message =>
    cases hact
    exact h.produce
  | start =>
    simp only [State.act] at hact
    split at hact
    · cases hact
      exact h.start
    · cases hact
  | poll p =>
    simp only [State.act] at hact
    split at hact
    · rename_i hphase hnext
      cases hact
      have hnew := h.handOut hphase hnext s.phase [] (by rw [hphase]; trivial) nofun
      rwa [append_nil] at hnew
    · rename_i e hphase hnext
      have hlt : s.topic.position p < (s.topic.handOut p).position p := by
        rw [position_handOut_self]
        exact Nat.lt_succ_self _
      cases hact
      cases sem with
      | atMostOnce => exact absurd rfl hsem
      | atLeastOnce =>
        exact h.handOut hphase hnext (.dispatching p _) [.dispatched p _] hlt fun _ _ => rfl
      | exactlyOnce =>
        have hnew := h.handOut hphase hnext (.opening p (s.topic.position p)) [] hlt fun _ _ => rfl
        rwa [append_nil] at hnew
    · cases hact
  | begin opened =>
    simp only [State.act] at hact
    split at hact
    · rename_i p offset hphase
      cases hact
      rw [hphase] at hright
      have hrunning : s.phase ≠ .stopped := by rw [hphase]; nofun
      have hcurrent : s.phase.current = some (p, offset) := by rw [hphase]; rfl
      cases opened with
      | true =>
        have hnew := h.next hrunning hcurrent (.dispatching p offset) [] [.dispatched p offset]
          hright (Or.inr (Or.inr rfl))
        rwa [append_nil] at hnew
      | false =>
        have hnew := h.next hrunning hcurrent .polling [(p, offset)] [] trivial
          (Or.inr (Or.inl mem_cons_self))
        rwa [append_nil] at hnew
    · cases hact
  | publish q message =>
    simp only [State.act] at hact
    split at hact
    · rw [if_neg hok] at hact
      cases hact
      exact h.produce
    · cases hact
  | finish raises =>
    simp only [State.act] at hact
    split at hact
    · rename_i p offset hphase
      cases hact
      rw [hphase] at hright
      have hrunning : s.phase ≠ .stopped := by rw [hphase]; nofun
      have hcurrent : s.phase.current = some (p, offset) := by rw [hphase]; rfl
      cases raises with
      | true =>
        have hnew := h.next hrunning hcurrent .polling [(p, offset)] [] trivial
          (Or.inr (Or.inl mem_cons_self))
        rwa [append_nil] at hnew
      | false =>
        have hmem : .returned p offset ∈ s.events ++ [Event.returned p offset] :=
          mem_append_right _ mem_cons_self
        have hnew := h.next hrunning hcurrent (.committing p offset) [] [.returned p offset]
          ⟨hright, hmem⟩ (Or.inl mem_cons_self)
        rw [append_nil] at hnew
        rw [if_neg hsem]
        exact hnew
    · cases hact
  | commit executed raises =>
    simp only [State.act] at hact
    split at hact
    · rename_i p offset hphase
      have hdone : ∀ topic, topic = (if executed then commitOffsets sem s.topic p offset
          else s.topic) → Invariant { s with topic := topic, phase := .polling } := by
        rintro topic rfl
        cases executed with
        | true =>
          refine h.commit hphase fun m hm hsame => hok hsem m hm fun hexactly => ?_
          rw [hsame hexactly]
          exact ⟨offset, hphase⟩
        | false => exact h.polling hphase
      cases raises with
      | true =>
        cases hact
        exact hdone _ rfl
      | false =>
        cases executed with
        | true =>
          rw [if_neg hsem] at hact
          cases hact
          exact hdone _ rfl
        | false => cases hact
    · cases hact
  | crash =>
    cases hact
    exact h.crash

omit [DecidableEq P] in
theorem invariant_init : Invariant ({} : State P E) where
  committed _ := le_rfl
  bound _ := Nat.zero_le _
  keeps _ _ _ _ hlt := absurd hlt (Nat.not_lt_zero _)
  handed _ _ _ _ hrecord := by simp at hrecord
  right := trivial

/-! ## Commits before the dispatch -/

/-- What the loop has in hand was not dispatched before it is committed. -/
def Phase.Fresh (s : State P E) : Phase P → Prop
  | .opening _ _ => False
  | .committing p offset => offset < s.topic.position p ∧ .dispatched p offset ∉ s.events
  | _ => True

/-- What holds throughout, if the commit comes first. -/
structure Once (s : State P E) : Prop where
  committed : ∀ p, s.topic.committed p ≤ s.topic.position p
  dispatched : ∀ p i, .dispatched p i ∈ s.events → i < s.topic.committed p
  once : ∀ p i, s.events.count (.dispatched p i) ≤ 1
  fresh : s.phase.Fresh s

theorem Once.append (h : Once s) : Once { s with topic := s.topic.append p message } where
  committed := h.committed
  dispatched := h.dispatched
  once := h.once
  fresh := by
    have hfresh := h.fresh
    cases hphase : s.phase with
    | stopped | polling | dispatching => trivial
    | opening | committing =>
      rw [hphase] at hfresh
      exact hfresh

theorem Once.next (h : Once s) (phase : Phase P) (failed : List (P × ℕ)) (more : List (Event P))
    (hmore : ∀ p i, .dispatched p i ∉ more)
    (hfresh : phase.Fresh { s with phase := phase, failed := failed, events := s.events ++ more }) :
    Once { s with phase := phase, failed := failed, events := s.events ++ more } where
  committed := h.committed
  dispatched p i hmem :=
    h.dispatched p i ((mem_append.mp hmem).resolve_right (hmore p i))
  once p i := by
    change (s.events ++ more).count _ ≤ 1
    rw [count_append, count_eq_zero.mpr (hmore p i)]
    exact h.once p i
  fresh := hfresh

theorem Once.handOut (h : Once s) (phase : Phase P)
    (hphase : phase = .polling ∨ phase = .committing p (s.topic.position p)) :
    Once { s with topic := s.topic.handOut p, phase := phase } where
  committed q := (h.committed q).trans position_le_handOut
  dispatched := h.dispatched
  once := h.once
  fresh := by
    rcases hphase with rfl | rfl
    · trivial
    · refine ⟨?_, fun hmem => ?_⟩
      · change s.topic.position p < (s.topic.handOut p).position p
        rw [position_handOut_self]
        exact Nat.lt_succ_self _
      · -- what was dispatched is below the commit
        exact absurd (h.dispatched p _ hmem) (not_lt.mpr (h.committed p))

theorem Once.commitAll (h : Once s) :
    Once { s with topic := s.topic.commitAll, phase := .polling } where
  committed _ := le_rfl
  dispatched p i hmem := (h.dispatched p i hmem).trans_le (h.committed p)
  once := h.once
  fresh := trivial

/-- **The dispatch after the commit.** -/
theorem Once.dispatch (h : Once s) (hphase : s.phase = .committing p offset) :
    Once { s with
      topic := s.topic.commitAll
      phase := .dispatching p offset
      events := s.events ++ [.dispatched p offset] } := by
  have hfresh := h.fresh
  rw [hphase] at hfresh
  obtain ⟨hlt, hnot⟩ := hfresh
  constructor
  · exact fun _ => le_rfl
  · intro q i hmem
    rcases mem_append.mp hmem with hold | hnew
    · exact (h.dispatched q i hold).trans_le (h.committed q)
    · cases mem_singleton.mp hnew
      exact hlt
  · intro q i
    change (s.events ++ [Event.dispatched p offset]).count _ ≤ 1
    rw [count_append]
    by_cases heq : Event.dispatched q i = .dispatched p offset
    · rw [heq, count_eq_zero.mpr hnot, count_singleton_self]
    · rw [count_singleton, beq_eq_false_iff_ne.mpr (Ne.symm heq)]
      exact h.once q i
  · trivial

theorem Once.act (h : Once s) (hact : s.act .atMostOnce a = some s') : Once s' := by
  have hfresh := h.fresh
  cases a with
  | produce p message =>
    cases hact
    exact h.append
  | start =>
    simp only [State.act] at hact
    split at hact
    · cases hact
      exact ⟨fun _ => le_rfl, h.dispatched, h.once, trivial⟩
    · cases hact
  | poll p =>
    simp only [State.act] at hact
    split at hact
    · rename_i hphase hnext
      cases hact
      exact h.handOut s.phase (Or.inl hphase)
    · cases hact
      exact h.handOut _ (Or.inr rfl)
    · cases hact
  | begin opened =>
    simp only [State.act] at hact
    split at hact
    · rename_i p offset hphase
      rw [hphase] at hfresh
      exact hfresh.elim
    · cases hact
  | publish q message =>
    simp only [State.act] at hact
    split at hact
    · rw [if_neg nofun] at hact
      cases hact
      exact h.append
    · cases hact
  | finish raises =>
    simp only [State.act] at hact
    split at hact
    · rename_i p offset hphase
      cases hact
      cases raises with
      | true =>
        have hnew := h.next .polling (s.failed ++ [(p, offset)]) [] (by simp) trivial
        rwa [append_nil] at hnew
      | false => exact h.next .polling s.failed [.returned p offset] (by simp) trivial
    · cases hact
  | commit executed raises =>
    simp only [State.act] at hact
    split at hact
    · rename_i p offset hphase
      have hpolling : Once { s with phase := .polling } :=
        ⟨h.committed, h.dispatched, h.once, trivial⟩
      cases raises with
      | true =>
        cases hact
        cases executed with
        | true => exact h.commitAll
        | false => exact hpolling
      | false =>
        cases executed with
        | true =>
          cases hact
          exact h.dispatch hphase
        | false => cases hact
    · cases hact
  | crash =>
    cases hact
    exact ⟨h.committed, h.dispatched, h.once, trivial⟩

theorem once_init : Once ({} : State P E) where
  committed _ := le_rfl
  dispatched _ _ h := absurd h not_mem_nil
  once _ _ := Nat.zero_le _
  fresh := trivial

/-! ## Handlers that publish -/

theorem refused_of_act (hact : s.act sem a = some s') (h : .publishRefused p i ∈ s'.events) :
    .publishRefused p i ∈ s.events ∨ sem = .exactlyOnce ∧ ∃ q m, a = .publish q m := by
  have hdispatched : ∀ {q j}, Event.publishRefused p i ∈ s.events ++ [Event.dispatched q j] →
      .publishRefused p i ∈ s.events := fun hmem => by simpa using hmem
  have hreturned : ∀ {q j}, Event.publishRefused p i ∈ s.events ++ [Event.returned q j] →
      .publishRefused p i ∈ s.events := fun hmem => by simpa using hmem
  cases a with
  | produce | crash =>
    cases hact
    exact Or.inl h
  | start =>
    simp only [State.act] at hact
    split at hact <;> cases hact
    exact Or.inl h
  | poll q =>
    simp only [State.act] at hact
    split at hact <;> cases hact
    · exact Or.inl h
    · cases sem with
      | atMostOnce | exactlyOnce => exact Or.inl h
      | atLeastOnce => exact Or.inl (hdispatched h)
  | begin opened =>
    simp only [State.act] at hact
    split at hact <;> cases hact
    cases opened with
    | true => exact Or.inl (hdispatched h)
    | false => exact Or.inl h
  | publish q m =>
    simp only [State.act] at hact
    split at hact
    · split at hact
      · rename_i hsem
        exact Or.inr ⟨hsem, q, m, rfl⟩
      · cases hact
        exact Or.inl h
    · cases hact
  | finish raises =>
    simp only [State.act] at hact
    split at hact <;> cases hact
    cases raises with
    | true => exact Or.inl h
    | false => exact Or.inl (hreturned h)
  | commit executed raises =>
    simp only [State.act] at hact
    split at hact
    · cases raises with
      | true =>
        cases hact
        exact Or.inl h
      | false =>
        cases executed with
        | true =>
          cases hact
          split at h
          · exact Or.inl (hdispatched h)
          · exact Or.inl h
        | false => cases hact
    · cases hact

end

end KafkaEventBus

open KafkaEventBus

/-- **No failed message is lost**, as long as no commit comes after a failure before the loop is
started anew; with `AT_MOST_ONCE` nothing is dispatched twice; and no handler fails because it
publishes, as long as none does inside a transaction. -/
theorem kafka_keeps_failed {P E : Type} [DecidableEq P] (sem : KafkaDeliverySemantics)
    {moves : List (Move P E)} {s : State P E}
    (h : Guarded (fun s a s' => State.act sem s a = some s') (Remembered sem) {} moves s) :
    (sem ≠ .atMostOnce → KeepsFailed s) ∧
    (sem = .atMostOnce → ∀ p i, s.events.count (.dispatched p i) ≤ 1) ∧
    ∀ p i, .publishRefused p i ∉ s.events := by
  refine ⟨fun hsem => ?_, ?_, fun p i => ?_⟩
  · have hinv : Invariant s := h.invariant (I := fun _ s => Invariant s) invariant_init
      fun _ _ _ _ _ hok hact hs => hs.act hsem hok hact
    exact hinv.keeps
  · rintro rfl
    have honce : Once s := h.run.invariant (fun _ _ _ _ hact hs => hs.act hact) once_init
    exact honce.once
  · refine h.invariant (I := fun _ s => .publishRefused p i ∉ s.events) not_mem_nil
      fun _ t a t' _ hok hact hs hmem => ?_
    rcases refused_of_act hact hmem with hold | ⟨hsem, q, m, rfl⟩
    · exact hs hold
    · exact hok hsem

/-- A message whose handler raises once, with a restart before the next commit. -/
theorem kafka_keeps_failed_restarted : ∃ s : State Unit Unit,
    s.events = [.dispatched () 0, .dispatched () 0, .returned () 0] ∧ s.topic.committed () = 1 ∧
      KeepsFailed s ∧ ∀ p i, .publishRefused p i ∉ s.events := by
  have h : Guarded (fun s a s' => State.act .atLeastOnce s a = some s') (Remembered .atLeastOnce)
      ({} : State Unit Unit) [.produce () (some ()), .start, .poll (), .finish true, .crash, .start,
        .poll (), .finish false, .commit true false] _ :=
    .snoc (.snoc (.snoc (.snoc (.snoc (.snoc (.snoc (.snoc (.snoc .nil trivial rfl) trivial rfl)
      trivial rfl) trivial rfl) trivial rfl) trivial rfl) trivial rfl) trivial rfl)
      (fun _ _ hmem => absurd hmem not_mem_nil) rfl
  obtain ⟨hkeeps, -, hrefused⟩ := kafka_keeps_failed .atLeastOnce h
  refine ⟨_, ?_, ?_, hkeeps nofun, hrefused⟩
  all_goals rfl

/-- A commit after a later message hides the failure of an earlier one, with and without
transactions, and a handler cannot publish inside a transaction. -/
theorem kafka_loses_failed :
    (∃ s : State Unit Unit, Run (fun s a s' => State.act .atLeastOnce s a = some s') {}
        [.produce () (some ()), .produce () (some ()), .start, .poll (), .finish true, .poll (),
          .finish false, .commit true false] s ∧ ¬KeepsFailed s) ∧
    (∃ s : State Unit Unit, Run (fun s a s' => State.act .exactlyOnce s a = some s') {}
        [.produce () (some ()), .produce () (some ()), .start, .poll (), .begin true, .finish true,
          .poll (), .begin true, .finish false, .commit true false] s ∧ ¬KeepsFailed s) ∧
    ∃ s : State Unit Unit, Run (fun s a s' => State.act .exactlyOnce s a = some s') {}
        [.produce () (some ()), .start, .poll (), .begin true, .publish () (some ())] s ∧
      .publishRefused () 0 ∈ s.events := by
  refine ⟨⟨_, .cons rfl (.cons rfl (.cons rfl (.cons rfl (.cons rfl (.cons rfl (.cons rfl
    (.cons rfl (.nil _)))))))), fun h => ?_⟩, ⟨_, .cons rfl (.cons rfl (.cons rfl (.cons rfl
    (.cons rfl (.cons rfl (.cons rfl (.cons rfl (.cons rfl (.cons rfl (.nil _)))))))))),
    fun h => ?_⟩, ⟨_, .cons rfl (.cons rfl (.cons rfl (.cons rfl (.cons rfl (.nil _))))), ?_⟩⟩
  · exact absurd (h () 0 () rfl (by decide)) (by decide)
  · exact absurd (h () 0 () rfl (by decide)) (by decide)
  · exact mem_cons_of_mem _ mem_cons_self

end Varco
