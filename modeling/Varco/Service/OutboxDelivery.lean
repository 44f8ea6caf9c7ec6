import Varco.Service.Outbox

/-!
# What becomes of an outbox entry

The relay deletes an entry on three paths: after it was published, after it was pushed to the dead
letter queue, and when its payload cannot be decoded. Each tick is shown to delete only an entry
that it has fetched and settled, in terms of its own log (`relay_issues`); along every run of
services and ticks an entry that was saved is then still in the outbox, or was settled.

Without a dead letter queue, an entry that cannot be decoded is deleted and nothing is left of it:
the relay drops it on purpose, since it would be tried for ever.
-/

namespace Varco

open List

variable {Ev : Type}

abbrev OutboxLogEntry (Ev : Type) := Entry OutboxChoice (OutboxCmd Ev) OutboxCmd.Res

def RelayDeadLetter.isOf (deadLetter : RelayDeadLetter) (entry : OutboxEntry) : Bool :=
  deadLetter.sourceRef = some entry.entryId.str && deadLetter.payload = entry.payload &&
    deadLetter.channel = entry.channel

namespace OutboxLogEntry

def fetches (entry : OutboxEntry) : OutboxLogEntry Ev → Bool
  | ⟨_, .getPending _, .ok entries⟩ => entries.contains entry
  | _ => false

def publishes (entry : OutboxEntry) : OutboxLogEntry Ev → Bool
  | ⟨_, .publish entry' _, .ok ()⟩ => entry'.core = entry.core
  | _ => false

def pushes (entry : OutboxEntry) : OutboxLogEntry Ev → Bool
  | ⟨_, .push deadLetter, .ok ()⟩ => deadLetter.isOf entry
  | _ => false

def swallows (entry : OutboxEntry) (e : OutboxLogEntry Ev) : Bool :=
  e.pushes entry && !e.choice.pushed

end OutboxLogEntry

namespace OutboxRelay

open OutboxLogEntry

variable {relay : OutboxRelay Ev} {entry : OutboxEntry} {log : List (OutboxLogEntry Ev)}

def undecodable (relay : OutboxRelay Ev) (entry : OutboxEntry) : Bool :=
  !(relay.deserialize entry.payload).toBool

/-- The entry is published, as the event that its payload is decoded to. -/
def Publishes (relay : OutboxRelay Ev) (entry : OutboxEntry) : OutboxLogEntry Ev → Prop
  | ⟨_, .publish entry' event, .ok ()⟩ =>
    entry'.core = entry.core ∧ relay.deserialize entry.payload = .ok event
  | _ => False

/-- The relay is done with the entry: it was published, or pushed to the dead letter queue, or
cannot be decoded and there is no queue. -/
def Settles (relay : OutboxRelay Ev) (entry : OutboxEntry) (log : List (OutboxLogEntry Ev)) :
    Prop :=
  (∃ e ∈ log, relay.Publishes entry e) ∨ (∃ e ∈ log, e.pushes entry = true) ∨
    relay.dlq = false ∧ relay.undecodable entry = true

/-- What a client may issue: an entry is deleted that was fetched and settled. -/
def Issues (relay : OutboxRelay Ev) (log : List (OutboxLogEntry Ev)) : OutboxCmd Ev → Prop
  | .delete entryId => ∃ entry, entry.entryId = entryId ∧ (∃ e ∈ log, e.fetches entry = true) ∧
      relay.Settles entry log
  | _ => True

/-- Every command of `p` is one that a client may issue, and the log only grows. -/
def Spec {α : Type} (relay : OutboxRelay Ev) (p : Outbox Ev α) (log : List (OutboxLogEntry Ev))
    (Ψ : List (OutboxLogEntry Ev) → Except Exc α → Prop) : Prop :=
  Prog.Local (fun _ _ _ => True) relay.Issues Ψ p.run log

/-! ## Program by program -/

theorem Settles.mono {log' : List (OutboxLogEntry Ev)} (h : relay.Settles entry log)
    (hlog : log ⊆ log') : relay.Settles entry log' := by
  rcases h with ⟨e, he, hp⟩ | ⟨e, he, hp⟩ | h
  · exact .inl ⟨e, hlog he, hp⟩
  · exact .inr (.inl ⟨e, hlog he, hp⟩)
  · exact .inr (.inr h)

theorem spec_delete (hfetched : ∃ e ∈ log, e.fetches entry = true)
    (hsettles : relay.Settles entry log) :
    relay.Spec (Prog.suppress (Outbox.delete entry.entryId)) log fun _ _ => True :=
  Prog.Local.suppress (Prog.Local.await ⟨entry, rfl, hfetched, hsettles⟩ fun _ _ _ => trivial)

/-- A push that returns is in the log; without a queue nothing is pushed. -/
theorem spec_pushToDlq {exc : PyException} {attempts : ℤ} :
    relay.Spec (relay.pushToDlq entry exc attempts) log fun l r =>
      log <+: l ∧ (r = .ok () → relay.dlq = false ∨ ∃ e ∈ l, e.pushes entry = true) := by
  unfold pushToDlq
  split
  case isTrue hdlq =>
    refine Prog.Local.grows (Prog.Local.await trivial fun x r _ hr => ?_)
    obtain rfl : r = .ok () := hr
    exact .inr ⟨_, mem_concat_self, by simp [pushes, RelayDeadLetter.isOf]⟩
  case isFalse hdlq => exact ⟨prefix_refl _, fun _ => .inl (by simpa using hdlq)⟩

theorem spec_push_delete {exc : PyException} {attempts : ℤ}
    (hfetched : ∃ e ∈ log, e.fetches entry = true)
    (hdrop : relay.dlq = false → relay.undecodable entry = true) :
    relay.Spec (do
      relay.pushToDlq entry exc attempts
      Prog.suppress (Outbox.delete entry.entryId)) log fun _ _ => True := by
  refine Prog.Local.bindExcept (spec_pushToDlq.mono fun l r hr => ?_)
  cases r with
  | error e => trivial
  | ok u =>
    obtain ⟨e, he, hf⟩ := hfetched
    refine spec_delete ⟨e, hr.1.subset he, hf⟩ ?_
    rcases hr.2 rfl with hdlq | hpushed
    · exact .inr (.inr ⟨hdlq, hdrop hdlq⟩)
    · exact .inr (.inl hpushed)

theorem spec_handlePublishFailure {exc : PyException}
    (hfetched : ∃ e ∈ log, e.fetches entry = true) :
    relay.Spec (relay.handlePublishFailure entry exc) log fun _ _ => True := by
  unfold handlePublishFailure
  split
  case isFalse => exact Prog.Local.pure_ok trivial
  case isTrue =>
    simp only
    split
    case isTrue hmax =>
      -- a relay that counts attempts has a dead letter queue
      refine spec_push_delete hfetched fun hdlq => ?_
      have hsome : relay.maxAttempts ≠ none := by
        intro hnone
        simp [hnone] at hmax
      cases (relay.dlq_of_maxAttempts hsome).symm.trans hdlq
    case isFalse =>
      refine Prog.Local.call trivial fun x now _ => ?_
      refine Prog.Local.bindAwait trivial (fun x r delay _ _ => ?_) fun _ _ _ _ => trivial
      exact Prog.Local.suppress (Prog.Local.await trivial fun _ _ _ => trivial)

theorem spec_relayEntry (hfetched : ∃ e ∈ log, e.fetches entry = true) :
    relay.Spec (relay.relayEntry entry) log fun _ _ => True := by
  unfold relayEntry
  split
  case h_1 exc hexc =>
    refine spec_push_delete hfetched fun _ => ?_
    simp [undecodable, hexc, Except.toBool]
  case h_2 event hevent =>
    refine Prog.Local.attempt (Prog.Local.await trivial fun x r _ => ?_)
    obtain ⟨e, he, hf⟩ := hfetched
    have hfetched' : ∀ r, ∃ e ∈ log ++ [⟨x, .publish entry event, r⟩], e.fetches entry = true :=
      fun r => ⟨e, mem_append_left _ he, hf⟩
    match r with
    | .error .cancelled => exact Prog.Local.throw trivial
    | .error (.error exc) => exact spec_handlePublishFailure (hfetched' _)
    | .ok () =>
      exact spec_delete (hfetched' _) (.inl ⟨_, mem_concat_self, rfl, hevent⟩)

theorem spec_relayEntries {entries : List OutboxEntry}
    (hfetched : ∀ entry ∈ entries, ∃ e ∈ log, e.fetches entry = true) :
    relay.Spec (relay.relayEntries entries) log fun _ _ => True := by
  induction entries generalizing log with
  | nil => exact Prog.Local.pure_ok trivial
  | cons entry rest ih =>
    refine Prog.Local.bindExcept
      ((spec_relayEntry (hfetched entry mem_cons_self)).grows.mono fun l r hr => ?_)
    cases r with
    | error e => trivial
    | ok u =>
      refine ih fun entry' hentry' => ?_
      obtain ⟨e, he, hf⟩ := hfetched entry' (mem_cons_of_mem _ hentry')
      exact ⟨e, hr.1.subset he, hf⟩

theorem spec_relayOnce : relay.Spec relay.relayOnce log fun _ _ => True := by
  refine Prog.Local.attempt (Prog.Local.await trivial fun x r _ => ?_)
  match r with
  | .error .cancelled => exact Prog.Local.throw trivial
  | .error (.error _) => exact Prog.Local.pure_ok trivial
  | .ok entries =>
    simp only [id]
    split
    case isTrue => exact Prog.Local.pure_ok trivial
    case isFalse =>
      refine Prog.Local.call trivial fun x' now _ => spec_relayEntries fun entry hentry => ?_
      refine ⟨_, mem_append_left _ mem_concat_self, ?_⟩
      simpa [fetches] using (mem_filter.mp hentry).1

/-- **What a client issues**: an entry is deleted only after it was fetched and settled. -/
theorem relay_issues (client : OutboxClient) :
    relay.Spec (relay.client client) [] fun _ _ => True := by
  cases client with
  | service entry => exact Prog.Local.await trivial fun _ _ _ => trivial
  | tick => exact spec_relayOnce

end OutboxRelay

/-! ## What a command does to the world -/

/-- The ways in which a command changes the world. -/
inductive OutboxWorld.Change (w : OutboxWorld) : OutboxCmd Ev → OutboxWorld → Prop
  | same (c : OutboxCmd Ev) : Change w c w
  | saved (entry : OutboxEntry) (hnew : ∀ e ∈ w.saved, e.entryId ≠ entry.entryId) :
      Change w (.save entry)
        { w with outbox := w.outbox.set entry.entryId entry, saved := w.saved ++ [entry] }
  | pushed (deadLetter : RelayDeadLetter) :
      Change w (.push deadLetter) { w with dlq := w.dlq ++ [deadLetter] }
  | deleted (entryId : UUID) :
      Change w (.delete entryId) { w with outbox := w.outbox.erase entryId }
  | marked (entryId : UUID) (attempts : ℤ) (nextAttemptAt : Instant) (error : String)
      (entry entry' : OutboxEntry) (hget : w.outbox.get? entryId = some entry)
      (hcore : entry'.core = entry.core) :
      Change w (.markFailed entryId attempts nextAttemptAt error)
        { w with outbox := w.outbox.set entryId entry' }

namespace OutboxWorld

variable {c : OutboxCmd Ev}

variable {w : OutboxWorld}

/-- A call that may be interrupted changes the world as the call does, or not at all. -/
theorem Change.await {α : Type} {w' : OutboxWorld} (h : Change w c w')
    (interrupt : Interrupt) (raised : Exc) (r : Except Exc α) :
    Change w c (interrupt.await raised w r w').2 := by
  rw [Interrupt.await_snd]
  split
  · exact .same c
  · exact h

theorem change_exec (x : OutboxChoice) (c : OutboxCmd Ev) (w : OutboxWorld) :
    Change w c (exec x c w).2 := by
  cases c with
  | save entry =>
    refine Change.await ?_ ..
    unfold save
    split
    case isTrue => exact .same _
    case isFalse hnew => exact .saved entry fun e he heq => hnew ⟨e, he, heq⟩
  | getPending limit => exact (Change.same _).await ..
  | now => exact .same _
  | publish entry event => exact .same _
  | push deadLetter =>
    refine Change.await ?_ ..
    split
    · exact .pushed deadLetter
    · exact .same _
  | delete entryId => exact (Change.deleted entryId).await ..
  | markFailed entryId attempts nextAttemptAt error =>
    refine Change.await ?_ ..
    split
    · unfold markFailed
      split
      case h_1 => exact .same _
      case h_2 entry hget => exact .marked entryId attempts nextAttemptAt error entry _ hget rfl
    · exact .same _
  | computeDelay attempt => exact .same _

theorem mem_of_fetches {x : OutboxChoice} {entry : OutboxEntry}
    (h : OutboxLogEntry.fetches entry ⟨x, c, (exec x c w).1⟩ = true) : entry ∈ w.outbox.values := by
  cases c with
  | getPending limit =>
    cases hi : x.interrupt with
    | none =>
      simp only [OutboxLogEntry.fetches, exec, hi, Interrupt.await, contains_iff_mem,
        getPending] at h
      exact (perm_insertionSort _ _).subset (mem_of_mem_take h)
    | before | after => simp [OutboxLogEntry.fetches, exec, hi, Interrupt.await] at h
  | _ => cases h

theorem mem_of_pushes {x : OutboxChoice} {entry : OutboxEntry}
    (h : OutboxLogEntry.pushes entry ⟨x, c, (exec x c w).1⟩ = true) (hx : x.pushed = true) :
    ∃ deadLetter ∈ (exec x c w).2.dlq, deadLetter.isOf entry = true := by
  cases c with
  | push deadLetter =>
    cases hi : x.interrupt with
    | none =>
      simp only [OutboxLogEntry.pushes, exec, hi, Interrupt.await] at h
      exact ⟨deadLetter, by simp [exec, hi, Interrupt.await, hx], h⟩
    | before | after => simp [OutboxLogEntry.pushes, exec, hi, Interrupt.await] at h
  | _ => cases h

/-- What was saved stays in the books, and so do the dead letters. -/
theorem Change.saved_subset {w' : OutboxWorld} (h : Change w c w') :
    w.saved ⊆ w'.saved := by
  cases h with
  | saved entry hnew => exact subset_append_left _ _
  | _ => exact List.Subset.refl _

theorem Change.dlq_subset {w' : OutboxWorld} (h : Change w c w') :
    w.dlq ⊆ w'.dlq := by
  cases h with
  | pushed deadLetter => exact subset_append_left _ _
  | _ => exact List.Subset.refl _

end OutboxWorld

theorem OutboxEntry.eq_of_core {a b : OutboxEntry} (h : a.core = b.core) :
    a.entryId = b.entryId ∧ a.payload = b.payload ∧ a.channel = b.channel := by
  unfold core at h
  simp only [OutboxEntry.mk.injEq] at h
  exact ⟨h.1, h.2.2.2.1, h.2.2.1⟩

def OutboxWorld.Holds (w : OutboxWorld) (entry : OutboxEntry) : Prop :=
  ∃ e, w.outbox.get? entry.entryId = some e ∧ e.core = entry.core

namespace OutboxRelay

variable {relay : OutboxRelay Ev} {entry : OutboxEntry} {log : List (OutboxLogEntry Ev)}
  {w w' : OutboxWorld} {c : OutboxCmd Ev}

/-- What is done with an entry does not depend on its attempts. -/
theorem Settles.of_core {a b : OutboxEntry} (h : relay.Settles a log) (hcore : a.core = b.core) :
    relay.Settles b log := by
  obtain ⟨hid, hpayload, hchannel⟩ := OutboxEntry.eq_of_core hcore
  have hundecodable : relay.undecodable b = relay.undecodable a := by
    unfold undecodable
    rw [hpayload]
  rcases h with ⟨e, he, hp⟩ | ⟨e, he, hp⟩ | ⟨hdlq, hu⟩
  · refine .inl ⟨e, he, ?_⟩
    unfold Publishes at hp ⊢
    rwa [← hcore, ← hpayload]
  · refine .inr (.inl ⟨e, he, ?_⟩)
    unfold OutboxLogEntry.pushes RelayDeadLetter.isOf at hp ⊢
    rwa [← hid, ← hpayload, ← hchannel]
  · exact .inr (.inr ⟨hdlq, hundecodable.trans hu⟩)

/-- The books of the outbox: an id was saved once, what is stored and what was fetched is an entry
that was saved, and what the queue kept is in it. -/
structure Booked (w : OutboxWorld) (log : List (OutboxLogEntry Ev)) : Prop where
  unique : ∀ a ∈ w.saved, ∀ b ∈ w.saved, a.entryId = b.entryId → a = b
  stored : ∀ id e, w.outbox.get? id = some e → ∃ s ∈ w.saved, s.entryId = id ∧ s.core = e.core
  fetched : ∀ e ∈ log, ∀ entry, e.fetches entry = true → ∃ s ∈ w.saved, s.core = entry.core
  pushed : ∀ e ∈ log, ∀ entry, e.pushes entry = true → e.choice.pushed = true →
    ∃ deadLetter ∈ w.dlq, deadLetter.isOf entry = true

theorem unique_of_change (h : w.Change c w')
    (hw : ∀ a ∈ w.saved, ∀ b ∈ w.saved, a.entryId = b.entryId → a = b) :
    ∀ a ∈ w'.saved, ∀ b ∈ w'.saved, a.entryId = b.entryId → a = b := by
  cases h with
  | saved entry hnew =>
    intro a ha b hb hab
    simp only [mem_append, mem_singleton] at ha hb
    rcases ha with ha | rfl
    · rcases hb with hb | rfl
      · exact hw a ha b hb hab
      · exact absurd hab (hnew a ha)
    · rcases hb with hb | rfl
      · exact absurd hab.symm (hnew b hb)
      · rfl
  | _ => exact hw

theorem stored_of_change (h : w.Change c w')
    (hw : ∀ id e, w.outbox.get? id = some e → ∃ s ∈ w.saved, s.entryId = id ∧ s.core = e.core) :
    ∀ id e, w'.outbox.get? id = some e → ∃ s ∈ w'.saved, s.entryId = id ∧ s.core = e.core := by
  intro id e he
  cases h with
  | saved entry hnew =>
    simp only [Dict.get?_set] at he
    split at he
    case isTrue hid =>
      obtain rfl := Option.some.inj he
      exact ⟨entry, mem_concat_self, hid.symm, rfl⟩
    case isFalse =>
      obtain ⟨s, hs, hsid, hcore⟩ := hw id e he
      exact ⟨s, mem_append_left _ hs, hsid, hcore⟩
  | deleted entryId =>
    simp only [Dict.get?_erase] at he
    split at he
    case isTrue => cases he
    case isFalse => exact hw id e he
  | marked entryId attempts nextAttemptAt error entry entry' hget hcore =>
    simp only [Dict.get?_set] at he
    split at he
    case isTrue hid =>
      obtain rfl := Option.some.inj he
      obtain ⟨s, hs, hsid, hscore⟩ := hw entryId entry hget
      exact ⟨s, hs, hsid.trans hid.symm, hscore.trans hcore.symm⟩
    case isFalse => exact hw id e he
  | same => exact hw id e he
  | pushed deadLetter => exact hw id e he

theorem Booked.step (h : Booked w log) (x : OutboxChoice) (c : OutboxCmd Ev) :
    Booked (OutboxWorld.exec x c w).2 (log ++ [⟨x, c, (OutboxWorld.exec x c w).1⟩]) := by
  have hchange := OutboxWorld.change_exec x c w
  refine ⟨unique_of_change hchange h.unique, stored_of_change hchange h.stored, ?_, ?_⟩
  · intro e he entry hfetches
    rcases mem_append.mp he with he | he
    · obtain ⟨s, hs, hcore⟩ := h.fetched e he entry hfetches
      exact ⟨s, hchange.saved_subset hs, hcore⟩
    · obtain rfl := mem_singleton.mp he
      obtain ⟨id, hid⟩ := Dict.mem_values.mp (OutboxWorld.mem_of_fetches hfetches)
      obtain ⟨s, hs, -, hcore⟩ := h.stored id entry hid
      exact ⟨s, hchange.saved_subset hs, hcore⟩
  · intro e he entry hpushes hkept
    rcases mem_append.mp he with he | he
    · obtain ⟨d, hd, hof⟩ := h.pushed e he entry hpushes hkept
      exact ⟨d, hchange.dlq_subset hd, hof⟩
    · obtain rfl := mem_singleton.mp he
      exact OutboxWorld.mem_of_pushes hpushes hkept

/-- An entry stays in the outbox, unless it is deleted. -/
theorem holds_of_change (h : w.Change c w') (hentry : entry ∈ w.saved) (hholds : w.Holds entry) :
    w'.Holds entry ∨ c = .delete entry.entryId := by
  obtain ⟨e, he, hcore⟩ := hholds
  cases h with
  | same => exact .inl ⟨e, he, hcore⟩
  | pushed deadLetter => exact .inl ⟨e, he, hcore⟩
  | saved entry' hnew =>
    refine .inl ⟨e, ?_, hcore⟩
    simp only [Dict.get?_set]
    rw [if_neg (hnew entry hentry)]
    exact he
  | deleted entryId =>
    by_cases hid : entry.entryId = entryId
    · exact .inr (by rw [hid])
    · refine .inl ⟨e, ?_, hcore⟩
      simp only [Dict.get?_erase]
      rw [if_neg hid]
      exact he
  | marked entryId attempts nextAttemptAt error stored stored' hget hcore' =>
    by_cases hid : entry.entryId = entryId
    · subst hid
      cases hget.symm.trans he
      exact .inl ⟨stored', Dict.get?_set_self .., hcore'.trans hcore⟩
    · refine .inl ⟨e, ?_, hcore⟩
      simp only [Dict.get?_set]
      rw [if_neg hid]
      exact he

theorem saved_of_change (h : w.Change c w') (hentry : entry ∈ w'.saved) :
    entry ∈ w.saved ∨ w'.Holds entry := by
  cases h with
  | saved entry' hnew =>
    rcases mem_append.mp hentry with hentry | hentry
    · exact .inl hentry
    · obtain rfl := mem_singleton.mp hentry
      exact .inr ⟨entry, Dict.get?_set_self .., rfl⟩
  | _ => exact .inl hentry

section

variable {ι : Type} [DecidableEq ι] {clients : ι → OutboxClient} {l l₁ l₂ : List (OutboxEvent Ev ι)}
  {P : Pool ι OutboxWorld (OutboxCmd Ev) OutboxCmd.Res (Except Exc Unit)} {e : OutboxEvent Ev ι}

def history (l : List (OutboxEvent Ev ι)) : List (OutboxLogEntry Ev) := l.map Event.toEntry

theorem log_subset_history (i : ι) (l : List (OutboxEvent Ev ι)) : Pool.log i l ⊆ history l := by
  intro x hx
  obtain ⟨e, he, -, rfl⟩ := Pool.mem_log.mp hx
  exact mem_map_of_mem he

theorem step_eq {P' : Pool ι OutboxWorld (OutboxCmd Ev) OutboxCmd.Res (Except Exc Unit)}
    (h : OutboxStep P e P') :
    e.toEntry = ⟨e.choice, e.cmd, (OutboxWorld.exec e.choice e.cmd P.shared).1⟩ ∧
      P'.shared = (OutboxWorld.exec e.choice e.cmd P.shared).2 :=
  h.total_eq

theorem booked_of_run (h : Run OutboxStep (relay.pool clients) l P) :
    Booked P.shared (history l) := by
  refine h.history (I := fun l P => Booked P.shared (history l)) ?_ ?_
  · refine ⟨?_, ?_, ?_, ?_⟩ <;> simp [pool, history]
  · intro l P e P' _ _ hst hI
    obtain ⟨he, hw⟩ := step_eq hst
    rw [hw, history, map_append, map_singleton, he]
    exact hI.step e.choice e.cmd

theorem settles_of_delete (h : Run OutboxStep (relay.pool clients) (l₁ ++ e :: l₂) P)
    {P₁ : Pool ι OutboxWorld (OutboxCmd Ev) OutboxCmd.Res (Except Exc Unit)}
    (h₁ : Run OutboxStep (relay.pool clients) l₁ P₁) (hdelete : e.cmd = .delete entry.entryId) :
    ∃ s ∈ P₁.shared.saved, s.entryId = entry.entryId ∧ relay.Settles s (history l₁) := by
  have hlocal : ∀ i, Prog.Local (fun _ _ _ => True) relay.Issues (fun _ _ => True)
      ((relay.pool clients).prog i) [] := fun i => relay_issues (clients i)
  have hissued := Pool.issued (fun _ _ _ _ _ _ _ => trivial) hlocal h
  rw [hdelete] at hissued
  obtain ⟨entry', hid, ⟨e', he', hfetches⟩, hsettles⟩ := hissued
  have hsub := log_subset_history e.thread l₁
  obtain ⟨s, hs, hcore⟩ := (booked_of_run h₁).fetched e' (hsub he') entry' hfetches
  exact ⟨s, hs, (OutboxEntry.eq_of_core hcore).1.trans hid, (hsettles.mono hsub).of_core hcore.symm⟩

/-- **What was saved is in the outbox or settled.** -/
theorem holds_or_settles (h : Run OutboxStep (relay.pool clients) l P) :
    ∀ entry ∈ P.shared.saved, P.shared.Holds entry ∨ relay.Settles entry (history l) := by
  refine h.history (I := fun l P => ∀ entry ∈ P.shared.saved,
    P.shared.Holds entry ∨ relay.Settles entry (history l)) ?_ ?_
  · simp [pool]
  · intro l P e P' hrun hl hst hI entry hentry
    obtain ⟨-, hw⟩ := step_eq hst
    have hchange := OutboxWorld.change_exec e.choice e.cmd P.shared
    rw [← hw] at hchange
    have hgrows : history l ⊆ history (l ++ [e]) := by
      unfold history
      rw [map_append]
      exact subset_append_left _ _
    rcases saved_of_change hchange hentry with hsaved | hholds
    · rcases hI entry hsaved with hholds | hsettles
      · rcases holds_of_change hchange hsaved hholds with hholds | hdelete
        · exact .inl hholds
        · obtain ⟨s, hs, hid, hsettles⟩ := settles_of_delete hrun hl hdelete
          obtain rfl := (booked_of_run hl).unique s hs entry hsaved hid
          exact .inr (hsettles.mono hgrows)
      · exact .inr (hsettles.mono hgrows)
    · exact .inl hholds

/-- The entry was published, or is in the dead letter queue; or it cannot be decoded and there is no
queue. Nothing is said of an entry that the queue did not keep although its push returned. -/
def Accounts (relay : OutboxRelay Ev) (entry : OutboxEntry) (l : List (OutboxEvent Ev ι))
    (w : OutboxWorld) : Prop :=
  (∃ e ∈ history l, relay.Publishes entry e) ∨
    (∃ deadLetter ∈ w.dlq, deadLetter.isOf entry = true) ∨
    (relay.dlq = false ∧ relay.undecodable entry = true) ∨
    ∃ e ∈ history l, e.swallows entry = true

omit [DecidableEq ι] in
theorem Settles.accounts (h : relay.Settles entry (history l))
    (hbooked : Booked P.shared (history l)) : relay.Accounts entry l P.shared := by
  rcases h with ⟨e, he, hp⟩ | ⟨e, he, hp⟩ | h
  · exact .inl ⟨e, he, hp⟩
  · cases hx : e.choice.pushed with
    | true => exact .inr (.inl (hbooked.pushed e he entry hp hx))
    | false =>
      refine .inr (.inr (.inr ⟨e, he, ?_⟩))
      simp [OutboxLogEntry.swallows, hp, hx]
  · exact .inr (.inr (.inl h))

/-- **The outbox loses nothing it does not mean to lose.** In every run of services and ticks, with
every behaviour of the bus, the queue and the repository: an entry that was saved is still in the
outbox, or was published, or is in the dead letter queue, or cannot be decoded and the relay has no
queue; and an entry is deleted only in the latter cases. -/
theorem outbox_loses_nothing (h : Run OutboxStep (relay.pool clients) l P) :
    (∀ entry ∈ P.shared.saved, P.shared.Holds entry ∨ relay.Accounts entry l P.shared) ∧
      ∀ l₁ (e : OutboxEvent Ev ι) l₂, l = l₁ ++ e :: l₂ → ∀ entry ∈ P.shared.saved,
        e.cmd = .delete entry.entryId →
        ∃ P₁, Run OutboxStep (relay.pool clients) l₁ P₁ ∧ relay.Accounts entry l₁ P₁.shared := by
  constructor
  · intro entry hentry
    rcases holds_or_settles h entry hentry with hholds | hsettles
    · exact .inl hholds
    · exact .inr (hsettles.accounts (booked_of_run h))
  · rintro l₁ e l₂ rfl entry hentry hdelete
    obtain ⟨P₁, hl₁, hrest⟩ := h.split
    obtain ⟨s, hs, hid, hsettles⟩ := settles_of_delete h hl₁ hdelete
    have hgrows : P₁.shared.saved ⊆ P.shared.saved := by
      refine hrest.invariant (I := fun Q => P₁.shared.saved ⊆ Q.shared.saved) ?_
        (List.Subset.refl _)
      intro Q e Q' _ hst hQ
      rw [(step_eq hst).2]
      exact List.Subset.trans hQ (OutboxWorld.change_exec e.choice e.cmd Q.shared).saved_subset
    obtain rfl := (booked_of_run h).unique s (hgrows hs) entry hentry hid
    exact ⟨P₁, hl₁, hsettles.accounts (booked_of_run hl₁)⟩

end

/-! ## Two entries -/

def decodeNonempty (payload : Bytes) : Except PyException Bytes :=
  if payload = [] then .error (.valueError "Expecting value: line 1 column 1 (char 0)")
  else .ok payload

def oneEntry (payload : Bytes) : ℕ → OutboxClient
  | 0 => .service { entryId := 1, payload := payload }
  | _ => .tick

/-- The entry is saved, and the tick fetches, decodes, publishes and deletes it. -/
theorem outbox_loses_nothing_published :
    ∃ l P, Run OutboxStep (pool { deserialize := decodeNonempty } (oneEntry [123, 125])) l P ∧
      P.shared.saved.length = 1 ∧
      ∀ entry ∈ P.shared.saved, P.shared.Holds entry ∨
        Accounts { deserialize := decodeNonempty } entry l P.shared := by
  have hrun : ∃ l P, Run OutboxStep
      (pool { deserialize := decodeNonempty } (oneEntry [123, 125])) l P ∧
      P.shared.saved.length = 1 :=
    ⟨_, _, Pool.run_of_sched (q := [(0, {}), (1, {}), (1, {}), (1, {}), (1, {})]) rfl, rfl⟩
  obtain ⟨l, P, h, hlen⟩ := hrun
  exact ⟨l, P, h, hlen, (outbox_loses_nothing h).1⟩

/-- **An entry that is dropped.** A relay without a dead letter queue fetches an entry that it
cannot decode, and deletes it: the entry was saved, and is neither in the outbox nor published nor
in a queue. -/
theorem undecodable_dropped :
    ∃ l P entry, Run OutboxStep (pool { deserialize := decodeNonempty } (oneEntry [])) l P ∧
      entry ∈ P.shared.saved ∧ ¬P.shared.Holds entry ∧
      (∀ e ∈ history l, e.publishes entry = false) ∧ P.shared.dlq = [] := by
  refine ⟨_, _, { entryId := 1 }, Pool.run_of_sched (q := [(0, {}), (1, {}), (1, {}), (1, {})]) rfl,
    mem_singleton_self _, ?_, ?_, rfl⟩
  · rintro ⟨e, he, -⟩
    cases he
  · decide

end OutboxRelay

end Varco
