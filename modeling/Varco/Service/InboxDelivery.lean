import Varco.Service.Inbox

/-!
# What becomes of an inbox row

A row is marked as processed from two places. The wrapper marks it after the handler has returned
(`consumer_issues`). The poller marks it after it has published the event again, and the bus may
drop the message before anyone handles it: the row is then processed and the event was never
handled.

A run loses no event exactly if each row that the poller marks is one whose event has been handled,
or has another row that is not processed yet (`nothing_lost_iff`).
-/

namespace Varco

open List

variable {Ev : Type}

abbrev InboxLogEntry (Ev : Type) := Entry InboxChoice (InboxCmd Ev) InboxCmd.Res

namespace InboxLogEntry

def Saves (id : UUID) (event : Ev) : InboxLogEntry Ev → Prop
  | ⟨_, .save entry event', .ok ()⟩ => entry.entryId = id ∧ event' = event
  | _ => False

def Handles (event : Ev) : InboxLogEntry Ev → Prop
  | ⟨_, .handle event', .ok ()⟩ => event' = event
  | _ => False

def Marks (id : UUID) (e : InboxLogEntry Ev) : Prop :=
  e.cmd = .markProcessed id ∧ e.choice.interrupt ≠ .before ∧ e.choice.marked = true

end InboxLogEntry

namespace InboxConsumer

open InboxLogEntry

variable {consumer : InboxConsumer Ev} {log : List (InboxLogEntry Ev)} {event : Ev} {id : UUID}

def polls : InboxClient Ev → Bool
  | .poller => true
  | _ => false

/-- What a client may issue: a row is saved unprocessed, and unless it is the poller it marks a row
that it has saved for an event that it has handled. -/
def Issues (client : InboxClient Ev) (log : List (InboxLogEntry Ev)) : InboxCmd Ev → Prop
  | .save entry _ => entry.processedAt = none
  | .markProcessed id => polls client = true ∨
      ∃ event, (∃ e ∈ log, Saves id event e) ∧ ∃ e ∈ log, Handles event e
  | _ => True

/-- Every command of `p` is one that the client may issue. -/
def Spec (client : InboxClient Ev) (p : Inbox Ev Unit) (log : List (InboxLogEntry Ev)) : Prop :=
  Prog.Local (fun _ _ _ => True) (Issues client) (fun _ _ => True) p.run log

/-! ## Program by program -/

theorem spec_wrapper {client : InboxClient Ev} : Spec client (consumer.wrapper event) log := by
  unfold wrapper fromEvent
  cases consumer.serialize event with
  | error exc => exact Prog.Local.bindExcept (Prog.Local.throw trivial)
  | ok payload =>
    refine Prog.Local.bindExcept (Prog.Local.call trivial fun _ entryId _ =>
      Prog.Local.call trivial fun _ now _ => Prog.Local.pure_ok ?_)
    refine Prog.Local.bindAwait rfl (fun x r _ _ hr => ?_) fun _ _ _ _ => trivial
    obtain rfl : r = .ok () := hr
    refine Prog.Local.bindAwait trivial (fun x' r' _ _ hr' => ?_) fun _ _ _ _ => trivial
    obtain rfl : r' = .ok () := hr'
    refine Prog.Local.suppress (Prog.Local.await (.inr ⟨event, ?_, ?_⟩) fun _ _ _ => trivial)
    · exact ⟨_, mem_append_left _ mem_concat_self, rfl, rfl⟩
    · exact ⟨_, mem_concat_self, rfl⟩

theorem spec_relayEntry {entry : InboxEntry} : Spec .poller (consumer.relayEntry entry) log := by
  unfold relayEntry
  split
  · exact Prog.Local.pure_ok trivial
  · refine Prog.Local.attempt (Prog.Local.await trivial fun x r _ => ?_)
    match r with
    | .error .cancelled => exact Prog.Local.throw trivial
    | .error (.error _) => exact Prog.Local.pure_ok trivial
    | .ok () => exact Prog.Local.suppress (Prog.Local.await (.inl rfl) fun _ _ _ => trivial)

theorem spec_relayEntries {entries : List InboxEntry} :
    Spec .poller (consumer.relayEntries entries) log := by
  induction entries generalizing log with
  | nil => exact Prog.Local.pure_ok trivial
  | cons entry rest ih =>
    refine Prog.Local.bindExcept (spec_relayEntry.mono fun l r _ => ?_)
    cases r with
    | error e => trivial
    | ok u => exact ih

/-- **What a client issues**: unless it is the poller, it marks a row only after it has saved the
row and its handler has completed. -/
theorem client_issues (client : InboxClient Ev) : Spec client (consumer.client client) log := by
  cases client with
  | producer event channel => exact Prog.Local.await trivial fun _ _ _ => trivial
  | consumer =>
    refine Prog.Local.call trivial fun x r _ => ?_
    cases r with
    | none => exact Prog.Local.pure_ok trivial
    | some event => exact spec_wrapper
  | dropper => exact ⟨trivial, fun _ _ _ => trivial⟩
  | poller =>
    exact Prog.Local.bindAwait trivial (fun _ _ _ _ _ => spec_relayEntries) fun _ _ _ _ => trivial

end InboxConsumer

/-! ## What a command does to the rows -/

namespace InboxWorld

open InboxLogEntry

variable {w : InboxWorld Ev} {id id' : UUID} {event : Ev} {x : InboxChoice} {c : InboxCmd Ev}

def Unprocessed (w : InboxWorld Ev) (id : UUID) (event : Ev) : Prop :=
  (id, event) ∈ w.saved ∧ ∃ entry, w.rows.get? id = some entry ∧ entry.processedAt = none

def Distinct (w : InboxWorld Ev) : Prop :=
  ∀ id event event', (id, event) ∈ w.saved → (id, event') ∈ w.saved → event = event'

/-- The ways in which a command changes the rows. -/
inductive Change (w : InboxWorld Ev) : InboxLogEntry Ev → InboxWorld Ev → Prop
  | same (e : InboxLogEntry Ev) (w' : InboxWorld Ev) (hrows : w'.rows = w.rows)
      (hsaved : w'.saved = w.saved) (hmarks : ∀ id, ¬Marks id e) : Change w e w'
  | saved (x : InboxChoice) (entry : InboxEntry) (event : Ev) (r : Except Exc Unit)
      (hnew : ∀ event', (entry.entryId, event') ∉ w.saved) :
      Change w ⟨x, .save entry event, r⟩ { w with
        rows := w.rows.set entry.entryId entry, saved := w.saved ++ [(entry.entryId, event)] }
  | marked (e : InboxLogEntry Ev) (id : UUID) (hmarks : Marks id e) :
      Change w e (w.markProcessed e.choice.clock id)

theorem change_exec (x : InboxChoice) (c : InboxCmd Ev) (w : InboxWorld Ev) :
    Change w ⟨x, c, (exec x c w).1⟩ (exec x c w).2 := by
  have hno : ∀ {c : InboxCmd Ev} {r : c.Res}, (∀ id, c ≠ .markProcessed id) →
      ∀ id, ¬Marks id ⟨x, c, r⟩ := fun hc id hm => hc id hm.1
  cases c with
  | receive channel =>
    refine .same _ _ ?_ ?_ (hno fun _ h => by cases h)
    all_goals
      simp only [exec]
      split
      · rfl
      · split <;> rfl
  | drop => exact .same _ _ rfl rfl (hno fun _ h => by cases h)
  | publish event channel =>
    refine .same _ _ ?_ ?_ (hno fun _ h => by cases h)
    all_goals
      simp only [exec]
      split <;> rfl
  | uuid4 | now => exact .same _ _ rfl rfl (hno fun _ h => by cases h)
  | save entry event =>
    have hsame : Change w ⟨x, .save entry event, (exec x (.save entry event) w).1⟩ w :=
      .same _ _ rfl rfl (hno fun _ h => by cases h)
    have hexec : (exec x (.save entry event) w).2 =
      if x.interrupt = .before then w else (w.save entry event).2 := Interrupt.await_snd ..
    rw [hexec]
    split
    · exact hsame
    · unfold save
      split
      case isTrue => exact hsame
      case isFalse hnew => exact .saved x entry event _ fun event' h => hnew ⟨_, h, rfl⟩
  | handle event => exact .same _ _ rfl rfl (hno fun _ h => by cases h)
  | markProcessed id =>
    have hexec : (exec x (.markProcessed id) w).2 =
      if x.interrupt = .before then w
      else if x.marked then w.markProcessed x.clock id else w := Interrupt.await_snd ..
    rw [hexec]
    split
    case isTrue hbefore => exact .same _ _ rfl rfl fun _ hm => hm.2.1 hbefore
    case isFalse hbefore =>
      split
      case isTrue hmarked => exact .marked _ id ⟨rfl, hbefore, hmarked⟩
      case isFalse hmarked => exact .same _ _ rfl rfl fun _ hm => hmarked hm.2.2
  | getUnprocessed limit =>
    have hexec : (exec x (.getUnprocessed limit) w).2 = w := by
      refine (Interrupt.await_snd ..).trans ?_
      split <;> rfl
    rw [hexec]
    exact .same _ _ rfl rfl (hno fun _ h => by cases h)

theorem saved_markProcessed (now : Instant) : (w.markProcessed now id).saved = w.saved := by
  unfold markProcessed
  split
  · rfl
  · split <;> rfl

/-- A mark takes the row off the unprocessed ones, and no other. -/
theorem unprocessed_markProcessed (now : Instant) :
    (w.markProcessed now id).Unprocessed id' event ↔ id' ≠ id ∧ w.Unprocessed id' event := by
  unfold Unprocessed
  rw [saved_markProcessed]
  by_cases hid : id' = id
  · subst hid
    simp only [ne_eq, not_true, false_and, iff_false]
    rintro ⟨-, entry, hget, hnone⟩
    unfold markProcessed at hget
    split at hget
    case h_1 hrow => cases hrow.symm.trans hget
    case h_2 row hrow =>
      split at hget
      · rw [Dict.get?_set_self] at hget
        cases hget
        cases hnone
      · rename_i hprocessed
        cases hrow.symm.trans hget
        exact hprocessed hnone
  · have hget : (w.markProcessed now id).rows.get? id' = w.rows.get? id' := by
      unfold markProcessed
      split
      · rfl
      · split
        · exact (Dict.get?_set ..).trans (if_neg hid)
        · rfl
    simp only [hget, ne_eq, hid, not_false_eq_true, true_and]

theorem Change.saved_subset {w' : InboxWorld Ev} {e : InboxLogEntry Ev} (h : Change w e w') :
    w.saved ⊆ w'.saved := by
  cases h with
  | same _ _ hrows hsaved => rw [hsaved]; exact List.Subset.refl _
  | saved => exact subset_append_left _ _
  | marked _ id hmarks => rw [saved_markProcessed]; exact List.Subset.refl _

theorem Change.distinct {w' : InboxWorld Ev} {e : InboxLogEntry Ev} (h : Change w e w')
    (hw : w.Distinct) : w'.Distinct := by
  cases h with
  | same _ _ hrows hsaved =>
    unfold Distinct
    rwa [hsaved]
  | saved x entry event r hnew =>
    intro id event₁ event₂ h₁ h₂
    simp only [mem_append, mem_singleton, Prod.mk.injEq] at h₁ h₂
    rcases h₁ with h₁ | ⟨rfl, rfl⟩
    · rcases h₂ with h₂ | ⟨rfl, rfl⟩
      · exact hw id event₁ event₂ h₁ h₂
      · exact absurd h₁ (hnew _)
    · rcases h₂ with h₂ | ⟨-, rfl⟩
      · exact absurd h₂ (hnew _)
      · rfl
  | marked _ id hmarks =>
    unfold Distinct
    rwa [saved_markProcessed]

theorem mem_of_saves (h : Saves id event ⟨x, c, (exec x c w).1⟩) :
    (id, event) ∈ (exec x c w).2.saved := by
  cases c with
  | save entry event' =>
    cases hr : (exec x (.save entry event') w).1 with
    | error exc =>
      rw [hr] at h
      cases h
    | ok u =>
      rw [hr] at h
      obtain ⟨rfl, rfl⟩ := h
      obtain ⟨hi, hok⟩ := Interrupt.await_eq_ok hr
      have hexec : (exec x (.save entry event') w).2 = (w.save entry event').2 :=
        (Interrupt.await_snd ..).trans (if_neg (by rw [hi]; decide))
      rw [hexec]
      unfold save at hok ⊢
      split
      case isTrue hold =>
        rw [if_pos hold] at hok
        cases hok
      case isFalse => exact mem_concat_self
  | _ => cases h

end InboxWorld

namespace InboxConsumer

open InboxLogEntry

section

variable {ι : Type} [DecidableEq ι] {consumer : InboxConsumer Ev} {clients : ι → InboxClient Ev}
  {l l₁ l₂ : List (InboxEvent Ev ι)} {e : InboxEvent Ev ι} {event : Ev}
  {P P' : Pool ι (InboxWorld Ev) (InboxCmd Ev) InboxCmd.Res (Except Exc Unit)}

def Handled (event : Ev) (l : List (InboxEvent Ev ι)) : Prop :=
  ∃ e ∈ Pool.history l, Handles event e

/-- The event is not lost: the inbox holds an unprocessed row of it, or it was handled. -/
def Kept (w : InboxWorld Ev) (l : List (InboxEvent Ev ι)) (event : Ev) : Prop :=
  (∃ id, w.Unprocessed id event) ∨ Handled event l

/-- Each row that the poller marks is one whose event has been handled, or has another unprocessed
row. -/
def PollsSafely (consumer : InboxConsumer Ev) (clients : ι → InboxClient Ev)
    (l : List (InboxEvent Ev ι)) : Prop :=
  ∀ l₁ (e : InboxEvent Ev ι) l₂ P₁, l = l₁ ++ e :: l₂ →
    Run InboxStep (consumer.pool clients) l₁ P₁ → polls (clients e.thread) = true →
    ∀ id event, Marks id e.toEntry →
      (id, event) ∈ P₁.shared.saved →
        Handled event l₁ ∨ ∃ id', id' ≠ id ∧ P₁.shared.Unprocessed id' event

theorem PollsSafely.of_append (h : consumer.PollsSafely clients (l₁ ++ l₂)) :
    consumer.PollsSafely clients l₁ := by
  rintro l₃ e l₄ P₁ rfl hrun
  exact h l₃ e (l₄ ++ l₂) P₁ (by simp) hrun

omit [DecidableEq ι] in
theorem Handled.snoc (h : Handled event l) : Handled event (l ++ [e]) := by
  obtain ⟨e', he', hhandles⟩ := h
  refine ⟨e', ?_, hhandles⟩
  rw [Pool.history_snoc]
  exact mem_append_left _ he'

theorem change_of_step (h : InboxStep P e P') : P.shared.Change e.toEntry P'.shared := by
  obtain ⟨he, hw⟩ := h.total_eq
  rw [he, hw]
  exact InboxWorld.change_exec ..

theorem distinct_of_run (h : Run InboxStep (consumer.pool clients) l P) : P.shared.Distinct := by
  refine h.invariant (I := fun P => P.shared.Distinct) ?_ ?_
  · intro Q e Q' _ hst hQ
    exact (change_of_step hst).distinct hQ
  · intro id event event' hmem
    cases hmem

theorem saved_of_run (h : Run InboxStep (consumer.pool clients) l P) :
    ∀ e ∈ Pool.history l, ∀ id event, Saves id event e → (id, event) ∈ P.shared.saved := by
  refine h.history (I := fun l P => ∀ e ∈ Pool.history l, ∀ id event, Saves id event e →
    (id, event) ∈ P.shared.saved) ?_ ?_
  · intro e he
    cases he
  · intro l P e P' _ _ hst hI e' he' id event hsaves
    rw [Pool.history_snoc] at he'
    rcases mem_append.mp he' with he' | he'
    · exact (change_of_step hst).saved_subset (hI e' he' id event hsaves)
    · obtain rfl := mem_singleton.mp he'
      obtain ⟨he, hw⟩ := hst.total_eq
      rw [he] at hsaves
      rw [hw]
      exact InboxWorld.mem_of_saves hsaves

theorem issued (h : Run InboxStep (consumer.pool clients) (l₁ ++ e :: l₂) P) :
    Issues (clients e.thread) (Pool.log e.thread l₁) e.cmd := by
  have hlocal : ∀ i, Prog.Local (fun _ _ _ => True) (Issues (clients i)) (fun _ _ => True)
      ((consumer.pool clients).prog i) [] := fun i => client_issues (clients i)
  exact Pool.issued (fun _ _ _ _ _ _ _ => trivial) hlocal h

/-- Unless it is the poller that marks a row, the event of the row was handled. -/
theorem handled_of_mark (h : Run InboxStep (consumer.pool clients) (l ++ [e]) P')
    (hl : Run InboxStep (consumer.pool clients) l P) (hpolls : polls (clients e.thread) ≠ true)
    {id : UUID} (hmarks : Marks id e.toEntry) (hsaved : (id, event) ∈ P.shared.saved) :
    Handled event l := by
  have hissued := issued h
  rw [hmarks.1] at hissued
  rcases hissued with hpoller | ⟨event', ⟨e₁, he₁, hsaves⟩, e₂, he₂, hhandles⟩
  · exact absurd hpoller hpolls
  · have hsub := Pool.log_subset_history e.thread l
    have hsaved' := saved_of_run hl e₁ (hsub he₁) id event' hsaves
    obtain rfl := distinct_of_run hl id event event' hsaved hsaved'
    exact ⟨e₂, hsub he₂, hhandles⟩

/-- **One step** keeps every event, if a poller's mark is safe. -/
theorem kept_of_step (h : Run InboxStep (consumer.pool clients) (l ++ [e]) P')
    (hl : Run InboxStep (consumer.pool clients) l P) (hst : InboxStep P e P')
    (hsafe : consumer.PollsSafely clients (l ++ [e]))
    (hI : ∀ id event, (id, event) ∈ P.shared.saved → Kept P.shared l event) :
    ∀ id event, (id, event) ∈ P'.shared.saved → Kept P'.shared (l ++ [e]) event := by
  intro id event hmem
  have hissued := issued h
  obtain ⟨⟨x, c, r⟩, i⟩ := e
  generalize hw' : P'.shared = w' at hmem ⊢
  have hchange := change_of_step hst
  rw [hw'] at hchange
  cases hchange with
  | same _ _ hrows hsaved hmarks =>
    rw [hsaved] at hmem
    rcases hI id event hmem with ⟨id', hopen⟩ | hhandled
    · refine .inl ⟨id', ?_⟩
      unfold InboxWorld.Unprocessed at hopen ⊢
      rwa [hsaved, hrows]
    · exact .inr hhandled.snoc
  | saved x entry event' r hnew =>
    rcases mem_append.mp hmem with hmem | hmem
    · rcases hI id event hmem with ⟨id', hmem', row, hrow, hnone⟩ | hhandled
      · refine .inl ⟨id', mem_append_left _ hmem', row, ?_, hnone⟩
        have hne : id' ≠ entry.entryId := by
          rintro rfl
          exact hnew event hmem'
        exact (Dict.get?_set ..).trans ((if_neg hne).trans hrow)
      · exact .inr hhandled.snoc
    · -- the new row is unprocessed
      obtain ⟨rfl, rfl⟩ := Prod.mk.inj (mem_singleton.mp hmem)
      exact .inl ⟨_, mem_concat_self, entry, Dict.get?_set_self .., hissued⟩
  | marked _ id' hmarks =>
    rw [InboxWorld.saved_markProcessed] at hmem
    rcases hI id event hmem with ⟨id₁, hopen⟩ | hhandled
    · by_cases hid : id₁ = id'
      · -- the row that is marked is the one that held the event
        subst hid
        by_cases hpolls : polls (clients i) = true
        · rcases hsafe l _ [] P rfl hl hpolls id₁ event hmarks hopen.1 with
            hhandled | ⟨id₂, hne, h₂⟩
          · exact .inr hhandled.snoc
          · exact .inl ⟨id₂, (InboxWorld.unprocessed_markProcessed _).mpr ⟨hne, h₂⟩⟩
        · exact .inr (handled_of_mark h hl hpolls hmarks hopen.1).snoc
      · exact .inl ⟨id₁, (InboxWorld.unprocessed_markProcessed _).mpr ⟨hid, hopen⟩⟩
    · exact .inr hhandled.snoc

/-- **A whole run** keeps every event, if the poller's marks are safe. -/
theorem kept_of_run (h : Run InboxStep (consumer.pool clients) l P)
    (hsafe : consumer.PollsSafely clients l) :
    ∀ id event, (id, event) ∈ P.shared.saved → Kept P.shared l event := by
  refine h.history (I := fun l P => consumer.PollsSafely clients l →
    ∀ id event, (id, event) ∈ P.shared.saved → Kept P.shared l event) ?_ ?_ hsafe
  · intro _ id event hmem
    cases hmem
  · intro l P e P' hrun hl hst hI hsafe
    exact kept_of_step hrun hl hst hsafe (hI hsafe.of_append)

/-- An event that a mark of its row does not lose was handled before, or has another row. -/
theorem safe_of_kept (hst : InboxStep P e P') {id : UUID} (hmarks : Marks id e.toEntry)
    (hkept : Kept P'.shared (l ++ [e]) event) :
    Handled event l ∨ ∃ id', id' ≠ id ∧ P.shared.Unprocessed id' event := by
  rcases hkept with ⟨id', hopen⟩ | ⟨e', he', hhandles⟩
  · have hchange := change_of_step hst
    obtain ⟨⟨x, c, r⟩, i⟩ := e
    obtain rfl : c = .markProcessed id := hmarks.1
    generalize P'.shared = w' at hchange hopen
    cases hchange with
    | same _ _ hrows hsaved hno => exact absurd hmarks (hno id)
    | marked _ id₁ hmarks₁ =>
      obtain rfl : id = id₁ := by simpa using hmarks₁.1
      exact .inr ⟨id', (InboxWorld.unprocessed_markProcessed _).mp hopen⟩
  · rw [Pool.history_snoc] at he'
    rcases mem_append.mp he' with he' | he'
    · exact .inl ⟨e', he', hhandles⟩
    · obtain rfl := mem_singleton.mp he'
      obtain ⟨⟨x, c, r⟩, i⟩ := e
      obtain rfl : c = .markProcessed id := hmarks.1
      cases hhandles

/-- **When the inbox loses nothing.** In a run of producers, deliveries and ticks of the poller,
over a bus that may drop messages, every event that was saved has at all times an unprocessed row or
was handled, if and only if each row that the poller marks is one whose event has been handled by
then, or has another unprocessed row. -/
theorem nothing_lost_iff (h : Run InboxStep (consumer.pool clients) l P) :
    (∀ l₁ l₂ P₁, l = l₁ ++ l₂ → Run InboxStep (consumer.pool clients) l₁ P₁ →
      ∀ id event, (id, event) ∈ P₁.shared.saved → Kept P₁.shared l₁ event) ↔
      consumer.PollsSafely clients l := by
  constructor
  · rintro hkept l₁ e l₂ P₁ rfl hl₁ - id event hmarks hsaved
    obtain ⟨Q, Q', hQ, hst, hrest⟩ := h.at_label
    obtain rfl := hl₁.det (fun _ _ _ _ h₁ h₂ => h₁.det h₂) hQ
    have hrun := hQ.append (.single hst)
    have hsaved' := (change_of_step hst).saved_subset hsaved
    exact safe_of_kept hst hmarks (hkept (l₁ ++ [e]) l₂ Q' (by simp) hrun id event hsaved')
  · rintro hsafe l₁ l₂ P₁ rfl hl₁
    exact kept_of_run hl₁ hsafe.of_append

end

/-! ## Two runs -/

def rawConsumer : InboxConsumer Bytes where
  eventTypeName _ := "Event"
  serialize event := .ok event
  deserialize payload := .ok payload

/-- A producer, a delivery, a tick of the poller, a drop, and further deliveries. -/
def fiveClients : ℕ → InboxClient Bytes
  | 0 => .producer [1] "default"
  | 1 => .consumer
  | 2 => .poller
  | 3 => .dropper
  | _ => .consumer

/-- The handler raises. The poller publishes the event once more and a second delivery handles it
before the poller marks the row. -/
theorem nothing_lost_iff_redelivered :
    ∃ l P, Run InboxStep (pool rawConsumer fiveClients) l P ∧
      P.shared.saved = [(7, [1]), (8, [1])] ∧ Handled [1] l ∧
      ((∀ l₁ l₂ P₁, l = l₁ ++ l₂ → Run InboxStep (pool rawConsumer fiveClients) l₁ P₁ →
        ∀ id event, (id, event) ∈ P₁.shared.saved → Kept P₁.shared l₁ event) ↔
        PollsSafely rawConsumer fiveClients l) := by
  have hrun : ∃ l P, Run InboxStep (pool rawConsumer fiveClients) l P ∧
      P.shared.saved = [(7, [1]), (8, [1])] ∧ Handled [1] l := by
    refine ⟨_, _, Pool.run_of_sched (q := [(0, {}), (1, {}), (1, { uuid := 7 }), (1, {}), (1, {}),
      (1, { handler := .error (.error ⟨"RuntimeError", ""⟩) }), (2, {}), (2, {}), (4, {}),
      (4, { uuid := 8 }), (4, {}), (4, {}), (4, {}), (2, {})]) rfl, rfl, ?_⟩
    exact ⟨⟨{}, .handle [1], .ok ()⟩, by simp [Pool.history], rfl⟩
  obtain ⟨l, P, h, hsaved, hhandled⟩ := hrun
  exact ⟨l, P, h, hsaved, hhandled, nothing_lost_iff h⟩

/-- **An event that is lost.** The handler raises; the poller publishes the event once more and
marks the row; the bus drops the message. No row is unprocessed, and the handler has not completed.
-/
theorem dropped_after_mark :
    ∃ l P, Run InboxStep (pool rawConsumer fiveClients) l P ∧
      (7, [1]) ∈ P.shared.saved ∧ P.shared.bus = [] ∧ ¬Kept P.shared l [1] := by
  refine ⟨_, _, Pool.run_of_sched (q := [(0, {}), (1, {}), (1, { uuid := 7 }), (1, {}), (1, {}),
    (1, { handler := .error (.error ⟨"RuntimeError", ""⟩) }), (2, {}), (2, {}), (2, {}),
    (3, {})]) rfl,
    mem_singleton_self _, rfl, ?_⟩
  rintro (⟨id, hmem, entry, hget, hnone⟩ | ⟨e, he, hhandles⟩)
  · obtain ⟨rfl, -⟩ := Prod.mk.inj (mem_singleton.mp hmem)
    cases hget
    cases hnone
  · simp only [Pool.history, map_cons, map_nil, mem_cons, not_mem_nil,
      or_false] at he
    rcases he with rfl | rfl | rfl | rfl | rfl | rfl | rfl | rfl | rfl | rfl <;> cases hhandles

end InboxConsumer

end Varco
