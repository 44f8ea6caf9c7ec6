import Varco.Idempotency.Sql

/-!
# Reservations in the SQL store are exclusive

Any number of clients reserve, complete, read and release keys at once. The primary key makes an
`INSERT` exclusive; what can go wrong is the takeover of an expired row, whose `DELETE` goes by the
key alone. `TakesOverExpired` says that it finds nothing that is still valid. Then a reservation
stands until it is released or the clock has passed its expiry (`Stands`), and `reserve_exclusive`
follows: nobody else acquires the key before that. In `takeover_overtaken` two clients take over the
same expired row, and both acquire the key.
-/

namespace Varco

open List Sql

namespace SAIdempotencyStore

abbrev RowEntry := LogEntry IdempotencyRow.key

def readClock (log : List RowEntry) : Option Instant :=
  log.findSome? fun
    | ⟨_, .now, t⟩ => some t
    | _ => none

/-- What a call of `client` may send after the log `log`: one write to a transaction. -/
def Issued (client : Client) (log : List RowEntry) : Cmd IdempotencyRow.key → Prop
  | .now => True
  | .stmt s =>
    match client, s with
    | .reserve key fp ttl, .insert row => settled log = true ∧
        ∃ t, readClock log = some t ∧ row = reservedRow key fp t (t + ttl.timedelta)
    | .reserve key _ _, .delete k => settled log = true ∧ k = key ∧ ∃ t, readClock log = some t
    | .complete key record, .update k _ f _ =>
      settled log = true ∧ k = key ∧ f = completedRow record
    | .release key, .delete k => settled log = true ∧ k = key
    | _, .insert _ => False
    | _, .delete _ => False
    | _, .update .. => False
    | _, _ => True

/-- What a call that acquired a key leaves in its log: the insert and its commit come last. -/
def Returned (client : Client) (log : List RowEntry) : Except PyException Answer → Prop
  | .ok (.outcome .acquired) => ∀ key fp ttl, client = .reserve key fp ttl →
      ∃ pre x x' t, readClock pre = some t ∧
        log = pre ++ [⟨x, .stmt (.insert (reservedRow key fp t (t + ttl.timedelta))), .ok ()⟩] ++
          [⟨x', .stmt .commit, .ok ()⟩]
  | _ => True

variable {client : Client} {log : List RowEntry} {key fp : String} {ttl : PyFloat} {t : Instant}

theorem readClock_mono {l : List RowEntry} (h : log <+: l) (ht : readClock log = some t) :
    readClock l = some t := by
  obtain ⟨l', rfl⟩ := h
  unfold readClock at ht ⊢
  rw [List.findSome?_append, ht]
  rfl

theorem settled_rollback {l : List RowEntry} {x : Choice String} {r : Except PyException Unit} :
    settled (l ++ [⟨x, .stmt .rollback, r⟩]) = true := by
  simp [settled_snoc, settledAfter, ends]

theorem settled_commit {l : List RowEntry} {x : Choice String} :
    settled (l ++ [⟨x, .stmt .commit, .ok ()⟩]) = true := by
  simp [settled_snoc, settledAfter, ends]

theorem issued_rollback (client : Client) (log : List RowEntry) :
    Issued client log (.stmt .rollback) := by
  cases client <;> trivial

theorem issued_commit (client : Client) (log : List RowEntry) :
    Issued client log (.stmt .commit) := by
  cases client <;> trivial

theorem issued_select (client : Client) (log : List RowEntry) {p : IdempotencyRow → Bool}
    {limit : Option ℤ} : Issued client log (.stmt (.select p limit)) := by
  cases client <;> trivial

/-! ## What the methods send -/

variable {β : Type} {Ψ : List RowEntry → Except PyException β → Prop}

/-- An insert goes through, and the log ends with it and its commit; or the transaction is over. -/
theorem spec_tryInsert {f : Bool → Method β} (hsettled : settled log = true)
    (hclock : readClock log = some t)
    (hok : ∀ x x', Spec (Issued (.reserve key fp ttl)) Ψ (f true)
      (log ++ [⟨x, .stmt (.insert (reservedRow key fp t (t + ttl.timedelta))), .ok ()⟩] ++
        [⟨x', .stmt .commit, .ok ()⟩]))
    (hfail : ∀ l, log <+: l → settled l = true → Spec (Issued (.reserve key fp ttl)) Ψ (f false) l)
    (herr : ∀ l e, Ψ l (.error e)) :
    Spec (Issued (.reserve key fp ttl)) Ψ
      (tryInsert (reservedRow key fp t (t + ttl.timedelta)) >>= f) log := by
  apply Prog.Local.bindExcept
  apply Prog.Local.attempt
  apply spec_transaction (Θ := fun l _ => ∃ x, l = log ++
    [⟨x, .stmt (.insert (reservedRow key fp t (t + ttl.timedelta))), .ok ()⟩])
  · apply spec_execute_last ⟨hsettled, t, hclock, rfl⟩
    intro x r b hb
    subst hb
    exact ⟨issued_commit .., x, rfl⟩
  · exact issued_rollback _
  · rintro l b x' - ⟨x, rfl⟩
    exact Prog.Local.pure_ok (hok x x')
  · intro l x r e hpre
    simp only
    split_ifs
    · exact Prog.Local.pure_ok (hfail _ (hpre.trans (prefix_append ..)) settled_rollback)
    · exact Prog.Local.throw (herr _ e)

theorem spec_fetchOne {f : Option IdempotencyRow → Method β}
    (hok : ∀ l found, log <+: l → settled l = true → Spec (Issued client) Ψ (f found) l)
    (herr : ∀ l e, Ψ l (.error e)) : Spec (Issued client) Ψ (fetchOne key >>= f) log := by
  apply Prog.Local.bindExcept
  apply spec_connection (Θ := fun _ _ => True)
  · apply spec_execute (issued_select ..)
    · intro x rows _
      exact Prog.Local.pure_ok fun _ _ => trivial
    · exact fun _ _ b hb => by cases hb
  · exact issued_rollback _
  · intro l b x r hpre _
    exact hok _ b (hpre.trans (prefix_append ..)) settled_rollback
  · exact fun l x r e _ => herr _ e

theorem spec_deleteRow {f : Unit → Method β} (hissued : Issued client log (.stmt (.delete key)))
    (hok : ∀ l, log <+: l → settled l = true → Spec (Issued client) Ψ (f ()) l)
    (herr : ∀ l e, Ψ l (.error e)) : Spec (Issued client) Ψ (deleteRow key >>= f) log := by
  apply Prog.Local.bindExcept
  apply spec_transaction (Θ := fun _ _ => True)
  · apply spec_execute hissued
    · intro x n _
      exact Prog.Local.pure_ok fun _ _ => ⟨issued_commit .., trivial⟩
    · exact fun _ _ b hb => by cases hb
  · exact issued_rollback _
  · intro l b x hpre _
    exact hok _ (hpre.trans (prefix_append ..)) settled_commit
  · exact fun l x r e _ => herr _ e

/-- An acquired key leaves its insert and commit at the end of the log. -/
def Acquired (key fp : String) (ttl : PyFloat) (log : List RowEntry) :
    Except PyException ReserveOutcome → Prop
  | .ok .acquired => ∃ pre x x' t, readClock pre = some t ∧
      log = pre ++ [⟨x, .stmt (.insert (reservedRow key fp t (t + ttl.timedelta))), .ok ()⟩] ++
        [⟨x', .stmt .commit, .ok ()⟩]
  | _ => True

theorem spec_lastInsert (hsettled : settled log = true) (hclock : readClock log = some t) :
    Spec (Issued (.reserve key fp ttl)) (Acquired key fp ttl)
      (tryInsert (reservedRow key fp t (t + ttl.timedelta)) >>= fun acquired =>
        (pure (insertOutcome acquired) : Method ReserveOutcome)) log := by
  apply spec_tryInsert hsettled hclock
  · exact fun x x' => Prog.Local.pure_ok ⟨log, x, x', t, hclock, rfl⟩
  · exact fun l _ _ => Prog.Local.pure_ok trivial
  · exact fun _ _ => trivial

theorem spec_reserveExisting (hclock : readClock log = some t) :
    Spec (Issued (.reserve key fp ttl)) (Acquired key fp ttl)
      (reserveExisting (reservedRow key fp t (t + ttl.timedelta)) t) log := by
  apply spec_fetchOne
  · intro l found hpre hsettled
    have hclock' := readClock_mono hpre hclock
    cases found with
    | none => exact spec_lastInsert hsettled hclock'
    | some row =>
      simp only
      split_ifs
      · have hissued : Issued (.reserve key fp ttl) l (.stmt (.delete key)) :=
          ⟨hsettled, rfl, t, hclock'⟩
        apply spec_deleteRow hissued
        · intro l' hpre' hsettled'
          exact spec_lastInsert hsettled' (readClock_mono hpre' hclock')
        · exact fun _ _ => trivial
      · cases row.state with
        | reserved | completed => exact Prog.Local.pure_ok trivial
  · exact fun _ _ => trivial

theorem spec_reserve :
    Spec (Issued (.reserve key fp ttl)) (Acquired key fp ttl) (reserve key fp ttl) [] := by
  unfold reserve
  split_ifs
  · exact Prog.Local.throw trivial
  · apply spec_now trivial
    intro x t
    apply spec_tryInsert rfl rfl
    · exact fun x₁ x₂ => Prog.Local.pure_ok ⟨_, x₁, x₂, t, rfl, rfl⟩
    · intro l hpre _
      exact spec_reserveExisting (readClock_mono hpre rfl)
    · exact fun _ _ => trivial

/-- **What every client sends and returns.** -/
theorem spec_run (client : Client) : Spec (Issued client) (Returned client) client.run [] := by
  cases client with
  | reserve key fp ttl =>
    apply Prog.Local.bindExcept
    apply spec_reserve.mono
    intro l a ha
    cases a with
    | error e => trivial
    | ok o =>
      apply Prog.Local.pure_ok
      cases o with
      | acquired =>
        intro key' fp' ttl' hc
        cases hc
        exact ha
      | inFlight => trivial
      | replay => trivial
  | complete key record =>
    apply Prog.Local.bindExcept
    apply spec_transaction (Θ := fun _ _ => True)
    · apply spec_execute ⟨rfl, rfl, rfl⟩
      · intro x n _
        exact Prog.Local.pure_ok fun _ _ => ⟨issued_commit .., trivial⟩
      · exact fun _ _ b hb => by cases hb
    · exact issued_rollback _
    · exact fun l b x _ _ => Prog.Local.pure_ok trivial
    · exact fun l x r e _ => trivial
  | get key =>
    apply Prog.Local.bindExcept
    apply spec_fetchOne
    · intro l found _ _
      cases found with
      | none => exact Prog.Local.pure_ok (Prog.Local.pure_ok trivial)
      | some row =>
        simp only
        cases row.state with
        | reserved => exact Prog.Local.pure_ok (Prog.Local.pure_ok trivial)
        | completed status body headers =>
          apply spec_now trivial
          intro x t
          split_ifs
          · exact Prog.Local.pure_ok (Prog.Local.pure_ok trivial)
          · exact Prog.Local.pure_ok (Prog.Local.pure_ok trivial)
    · exact fun _ _ => trivial
  | release key =>
    have hissued : Issued (.release key) [] (.stmt (.delete key)) := ⟨rfl, rfl⟩
    apply spec_deleteRow hissued
    · exact fun l _ _ => Prog.Local.pure_ok trivial
    · exact fun _ _ => trivial

/-! ## The clients over one table -/

section

variable {ι : Type} [DecidableEq ι]

/-- The calls of the clients over one table, with no transaction open. -/
def idempotencyPool (rows : KeyedMap IdempotencyRow.key) (clients : ι → Client) :
    Pool ι (Database ι IdempotencyRow.key) (Cmd IdempotencyRow.key) Cmd.Res
      (Except PyException Answer) :=
  ⟨{ rows := rows }, fun i => (clients i).run⟩

/-- The `DELETE` of a takeover finds no row, or one that has expired at the time that its call
started. -/
def TakesOverExpired (clients : ι → Client)
    (past : List (Event ι (Choice String) (Cmd IdempotencyRow.key) Cmd.Res))
    (P : Pool ι (Database ι IdempotencyRow.key) (Cmd IdempotencyRow.key) Cmd.Res
      (Except PyException Answer))
    (e : Event ι (Choice String) (Cmd IdempotencyRow.key) Cmd.Res) : Prop :=
  ∀ key fp ttl, clients e.thread = .reserve key fp ttl → e.cmd = .stmt (.delete key) →
    ∀ t, readClock (Pool.log e.thread past) = some t →
      ∀ row, P.shared.rows.get key = some row → row.expiresAt ≤ t

variable {rows : KeyedMap IdempotencyRow.key} {clients : ι → Client} {i : ι}
  {e : Event ι (Choice String) (Cmd IdempotencyRow.key) Cmd.Res}
  {l l₁ l₂ : List (Event ι (Choice String) (Cmd IdempotencyRow.key) Cmd.Res)}
  {P P' : Pool ι (Database ι IdempotencyRow.key) (Cmd IdempotencyRow.key) Cmd.Res
    (Except PyException Answer)}

/-- **What any interleaving sends.** -/
theorem sent_of_run (h : Run SqlStep (idempotencyPool rows clients) (l₁ ++ e :: l₂) P) :
    Issued (clients e.thread) (Pool.log e.thread l₁) e.cmd :=
  Pool.issued (P := idempotencyPool rows clients) (Φ := fun i => Issued (clients i))
    (Ψ := fun i => Returned (clients i)) (fun _ _ _ _ _ _ => Database.answer_of_exec)
    (fun i => spec_run (clients i)) h

theorem returned_of_run (h : Run SqlStep (idempotencyPool rows clients) l P)
    {a : Except PyException Answer} (ha : P.prog i = .ret a) :
    Returned (clients i) (Pool.log i l) a :=
  Pool.returned (P := idempotencyPool rows clients) (Φ := fun i => Issued (clients i))
    (Ψ := fun i => Returned (clients i)) (fun _ _ _ _ _ _ => Database.answer_of_exec)
    (fun i => spec_run (clients i)) h ha

omit [DecidableEq ι] in
theorem no_drafts (i : ι) : (idempotencyPool rows clients).shared.drafts i = [] := rfl

/-- A client that starts a transaction sees the committed rows. -/
theorem view_of_settled (h : Run SqlStep (idempotencyPool rows clients) l P)
    (hs : settled (Pool.log i l) = true) : P.shared.view i = P.shared.rows := by
  unfold Database.view
  rw [drafts_of_settled no_drafts h hs]
  rfl

theorem readClock_le (h : Run SqlStep (idempotencyPool rows clients) l P)
    (ht : readClock (Pool.log i l) = some t) : t ≤ P.shared.clock := by
  obtain ⟨y, hy, hyt⟩ := exists_of_findSome?_eq_some ht
  obtain ⟨x, c, r⟩ := y
  cases c with
  | now =>
    cases hyt
    exact read_le_clock h hy
  | stmt s => cases hyt

/-! ## What an open change is made over -/

/-- The row `stored` that a change of `client` is made over: a reservation goes over no row, a
takeover over an expired one, and a completion keeps the expiry. -/
def Client.Over (clock : Instant) (c : Change IdempotencyRow.key) (stored : Option IdempotencyRow) :
    Client → Prop
  | .reserve .. => stored = none ∨ c.after = none ∧ ∃ row, stored = some row ∧ row.expiresAt ≤ clock
  | .complete .. => ∃ row row', stored = some row ∧ c.after = some row' ∧
      row'.expiresAt = row.expiresAt
  | .release key => c.rowKey = key
  | .get _ => False

theorem Client.Over.mono {clock clock' : Instant} {c : Change IdempotencyRow.key}
    {stored : Option IdempotencyRow} (h : client.Over clock c stored) (hle : clock ≤ clock') :
    client.Over clock' c stored := by
  cases client with
  | reserve =>
    rcases h with h | ⟨hc, row, hrow, hexp⟩
    · exact Or.inl h
    · exact Or.inr ⟨hc, row, hrow, hexp.trans hle⟩
  | _ => exact h

def Fenced (clients : ι → Client)
    (P : Pool ι (Database ι IdempotencyRow.key) (Cmd IdempotencyRow.key) Cmd.Res
      (Except PyException Answer)) : Prop :=
  ∀ i, ∀ c ∈ P.shared.drafts i,
    (clients i).Over P.shared.clock c (P.shared.rows.get c.rowKey)

/-- **Every step keeps the fence.** -/
theorem Fenced.step (hf : Fenced clients P)
    (h : Guarded SqlStep (TakesOverExpired clients) (idempotencyPool rows clients) l P)
    (hok : TakesOverExpired clients l P e) (hst : SqlStep P e P')
    (hrun : Run SqlStep (idempotencyPool rows clients) (l ++ [e]) P') : Fenced clients P' := by
  intro i c hc
  have heff := effect_of_step hst
  have hclock : P.shared.clock ≤ P'.shared.clock := clock_le_of_run (.single hst)
  by_cases hi : e.thread = i
  · subst hi
    obtain ⟨hrows, hc⟩ := heff.drafts_self hc
    rw [hrows]
    rcases hc with hc | ⟨s, hs, hmakes⟩
    · exact (hf e.thread c hc).mono hclock
    · apply Client.Over.mono _ hclock
      have hsent := sent_of_run hrun
      have hmakes' : Database.Makes (P.shared.view e.thread) c s := hmakes
      change (clients e.thread).Over P.shared.clock c (P.shared.rows.get c.rowKey)
      rw [hs] at hsent
      cases hclient : clients e.thread with
      | reserve key fp ttl =>
        rw [hclient] at hsent
        cases s with
        | insert row =>
          obtain ⟨hsettled, t, ht, rfl⟩ := hsent
          rw [view_of_settled h.run hsettled] at hmakes'
          obtain ⟨hnone, rfl⟩ := hmakes'
          exact Or.inl hnone
        | delete k =>
          obtain ⟨hsettled, rfl, t, ht⟩ := hsent
          rw [view_of_settled h.run hsettled] at hmakes'
          obtain ⟨hsome, rfl⟩ := hmakes'
          obtain ⟨row, hrow⟩ := Option.ne_none_iff_exists'.mp hsome
          have hexp := hok k fp ttl hclient hs t ht row hrow
          exact Or.inr ⟨rfl, row, hrow, hexp.trans (readClock_le h.run ht)⟩
        | update => exact absurd hsent not_false
        | _ => exact absurd hmakes' not_false
      | complete key record =>
        rw [hclient] at hsent
        cases s with
        | update k p f hf' =>
          obtain ⟨hsettled, rfl, rfl⟩ := hsent
          rw [view_of_settled h.run hsettled] at hmakes'
          obtain ⟨row, hrow, -, rfl⟩ := hmakes'
          have hkey : row.key = k := KeyedMap.keyed hrow
          refine ⟨row, completedRow record row, ?_, rfl, rfl⟩
          change P.shared.rows.get row.key = some row
          rw [hkey, hrow]
        | insert => exact absurd hsent not_false
        | delete => exact absurd hsent not_false
        | _ => exact absurd hmakes' not_false
      | release key =>
        rw [hclient] at hsent
        cases s with
        | delete k =>
          obtain ⟨-, rfl⟩ := hsent
          obtain ⟨-, rfl⟩ := hmakes'
          rfl
        | insert => exact absurd hsent not_false
        | update => exact absurd hsent not_false
        | _ => exact absurd hmakes' not_false
      | get key =>
        rw [hclient] at hsent
        cases s with
        | insert | delete | update => exact absurd hsent not_false
        | _ => exact absurd hmakes' not_false
  · rw [heff.drafts_of_ne hi] at hc
    -- the row is locked by `i`
    have hlocked : P.shared.Locked :=
      locked_of_run h.run (Database.locked_of_no_drafts no_drafts)
    have hsame : P'.shared.rows.get c.rowKey = P.shared.rows.get c.rowKey :=
      heff.get_of_held hlocked hi (hlocked i c hc)
    rw [hsame]
    exact (hf i c hc).mono hclock

theorem fenced_of_run
    (h : Guarded SqlStep (TakesOverExpired clients) (idempotencyPool rows clients) l P) :
    Fenced clients P := by
  induction h with
  | nil =>
    intro i c hc
    cases hc
  | snoc h hok hst ih => exact ih.step h hok hst (h.run.append (.single hst))

/-! ## Exclusiveness -/

/-- A reservation of `key` that expires at `expiry` stands, or has expired. -/
def Stands (key : String) (expiry : Instant)
    (P : Pool ι (Database ι IdempotencyRow.key) (Cmd IdempotencyRow.key) Cmd.Res
      (Except PyException Answer)) : Prop :=
  (∃ row, P.shared.rows.get key = some row ∧ row.expiresAt = expiry) ∨ expiry ≤ P.shared.clock

variable {expiry : Instant}

/-- A reservation stands as long as nobody releases the key. -/
theorem Stands.step (h : Stands key expiry P) (hf : Fenced clients P) (hst : SqlStep P e P')
    (hrel : clients e.thread = .release key → e.cmd ≠ .stmt .commit) : Stands key expiry P' := by
  have heff := effect_of_step hst
  have hclock : P.shared.clock ≤ P'.shared.clock := clock_le_of_run (.single hst)
  rcases h with ⟨row, hrow, hexp⟩ | h
  · rcases heff.get_cases key with hsame | ⟨c, hc, rfl, hafter⟩
    · exact Or.inl ⟨row, hsame.trans hrow, hexp⟩
    · have hover := hf e.thread c hc
      cases hclient : clients e.thread with
      | reserve key fp ttl =>
        rw [hclient, hrow] at hover
        rcases hover with hnone | ⟨-, row', hrow', hexp'⟩
        · cases hnone
        · cases hrow'
          exact Or.inr ((hexp ▸ hexp').trans hclock)
      | complete key record =>
        rw [hclient, hrow] at hover
        obtain ⟨row₁, row₂, hrow₁, hrow₂, hexp₂⟩ := hover
        cases hrow₁
        exact Or.inl ⟨row₂, hafter.trans hrow₂, hexp₂.trans hexp⟩
      | release key =>
        rw [hclient] at hover
        -- the row can only have changed by a commit
        have hnotCommit := hrel (by rw [hclient]; exact congrArg _ hover.symm)
        have hsame : P'.shared.rows.get c.rowKey = P.shared.rows.get c.rowKey := by
          rw [heff.rows_eq hnotCommit]
        exact Or.inl ⟨row, hsame.trans hrow, hexp⟩
      | get key =>
        rw [hclient] at hover
        exact absurd hover not_false
  · exact Or.inr (h.trans hclock)

theorem stands_of_run {P₁ : Pool ι (Database ι IdempotencyRow.key) (Cmd IdempotencyRow.key) Cmd.Res
      (Except PyException Answer)}
    (h : Guarded SqlStep (TakesOverExpired clients) (idempotencyPool rows clients) (l₁ ++ l₂) P)
    (h₁ : Run SqlStep (idempotencyPool rows clients) l₁ P₁) (hs : Stands key expiry P₁)
    (hrel : ∀ e ∈ l₂, clients e.thread = .release key → e.cmd ≠ .stmt .commit) :
    Stands key expiry P := by
  induction l₂ using List.reverseRecOn generalizing P with
  | nil =>
    rw [append_nil] at h
    rwa [← h₁.det (fun _ _ _ _ => Pool.Step.det) h.run]
  | append_singleton l₂ a ih =>
    rw [← append_assoc] at h
    obtain ⟨Q, hQ, -, hst⟩ := h.snoc_inv
    have hstands := ih hQ fun e he => hrel e (mem_append_left _ he)
    exact hstands.step (fenced_of_run hQ) hst (hrel a (by simp))

/-- The step at which a call acquires a key commits the row of its reservation, over no row. -/
theorem commit_of_acquired
    (h : Guarded SqlStep (TakesOverExpired clients) (idempotencyPool rows clients) l P)
    (hst : SqlStep P e P') (hrun : Run SqlStep (idempotencyPool rows clients) (l ++ [e]) P')
    (hclient : clients e.thread = .reserve key fp ttl)
    (hret : P'.prog e.thread = .ret (.ok (.outcome .acquired))) :
    ∃ t, readClock (Pool.log e.thread l) = some t ∧ P.shared.rows.get key = none ∧
      P'.shared.rows.get key = some (reservedRow key fp t (t + ttl.timedelta)) := by
  obtain ⟨pre, x, x', t, ht, hlog⟩ := returned_of_run hrun hret key fp ttl hclient
  rw [Pool.log_snoc_self] at hlog
  obtain ⟨hpre, hlast⟩ := append_inj' hlog rfl
  have hcommit : e.toEntry = ⟨x', .stmt .commit, .ok ()⟩ := singleton_inj.mp hlast
  refine ⟨t, ?_, ?_, ?_⟩
  · rw [hpre]
    exact readClock_mono (prefix_append ..) ht
  · -- the insert was made when there was no row, and has locked it
    obtain ⟨cs, hdrafts⟩ := drafts_of_inserted h.run hpre
    have hover := fenced_of_run h e.thread (.put (reservedRow key fp t (t + ttl.timedelta)))
      (by rw [hdrafts]; simp)
    rw [hclient] at hover
    rcases hover with hnone | ⟨hafter, -⟩
    · exact hnone
    · cases hafter
  · obtain ⟨cs, hdrafts⟩ := drafts_of_inserted h.run hpre
    have hview : (P.shared.view e.thread).get key =
        some (reservedRow key fp t (t + ttl.timedelta)) := by
      unfold Database.view
      rw [hdrafts, Change.applyAll_snoc, Change.get_apply]
      exact if_pos rfl
    obtain ⟨⟨z, c, r⟩, j⟩ := e
    cases hcommit
    rw [(Database.eq_of_commit hst.exec_eq).1]
    exact hview

/-- **Reservations are exclusive**, in the runs whose takeovers find expired rows only: after the
step `a` at which a call acquires a key for `ttl`, and while nobody releases it, the step `b` at
which another call acquires it comes when the reservation has expired. -/
theorem reserve_exclusive {a b : Event ι (Choice String) (Cmd IdempotencyRow.key) Cmd.Res}
    {P₁ : Pool ι (Database ι IdempotencyRow.key) (Cmd IdempotencyRow.key) Cmd.Res
      (Except PyException Answer)} {fp' : String} {ttl' : PyFloat}
    (h : Guarded SqlStep (TakesOverExpired clients) (idempotencyPool rows clients)
      (l₁ ++ a :: (l₂ ++ [b])) P)
    (h₁ : Run SqlStep (idempotencyPool rows clients) (l₁ ++ [a]) P₁)
    (hclient : clients a.thread = .reserve key fp ttl)
    (ha : P₁.prog a.thread = .ret (.ok (.outcome .acquired)))
    (ht : readClock (Pool.log a.thread l₁) = some t)
    (hrel : ∀ e ∈ l₂, clients e.thread = .release key → e.cmd ≠ .stmt .commit)
    (hclient' : clients b.thread = .reserve key fp' ttl')
    (hb : P.prog b.thread = .ret (.ok (.outcome .acquired))) :
    t + ttl.timedelta ≤ b.choice.clock := by
  rw [append_cons, ← append_assoc] at h
  obtain ⟨Q, hQ, -, hstb⟩ := h.snoc_inv
  obtain ⟨P₁', hP₁, -⟩ := hQ.split
  obtain rfl := h₁.det (fun _ _ _ _ => Pool.Step.det) hP₁.run
  obtain ⟨P₀, hP₀, -, hsta⟩ := hP₁.snoc_inv
  obtain ⟨t', ht', -, hrow⟩ := commit_of_acquired hP₀ hsta h₁ hclient ha
  cases ht.symm.trans ht'
  -- the reservation stands until `b`, which finds no row
  have hstands : Stands key (t + ttl.timedelta) Q :=
    stands_of_run hQ h₁ (Or.inl ⟨_, hrow, rfl⟩) hrel
  obtain ⟨-, -, hnone, -⟩ := commit_of_acquired hQ hstb h.run hclient' hb
  rcases hstands with ⟨row, hrow', -⟩ | hexpired
  · cases hnone.symm.trans hrow'
  · exact hexpired.trans (clock_of_step hstb).1

end

/-! ## A takeover that is overtaken -/

def minute : PyFloat := ⟨60, "60.0"⟩

def retries (_ : ℕ) : Client := .reserve "k" "f" minute

def staleRow : KeyedMap IdempotencyRow.key :=
  KeyedMap.empty.put (reservedRow "k" "f" 0 10000000)

/-- A choice at a time in seconds, for a table with a row for the key. -/
def atSecond (n : ℤ) : Choice String := { clock := n * 1000000, order := ["k"] }

/-- Both requests find the expired row; the first takes it over and acquires the key, then the
second deletes what the first has inserted. -/
def bothTakeOver : List (ℕ × Choice String) :=
  List.replicate 5 (0, atSecond 20) ++ List.replicate 5 (1, atSecond 20) ++
    List.replicate 4 (0, atSecond 20) ++ List.replicate 4 (1, atSecond 20)

/-- **Two requests take over the same expired row, and both acquire the key**, at the same time. -/
theorem takeover_overtaken :
    ∃ l P, Run SqlStep (idempotencyPool staleRow retries) l P ∧
      P.prog 0 = .ret (.ok (.outcome .acquired)) ∧ P.prog 1 = .ret (.ok (.outcome .acquired)) ∧
      readClock (Pool.log 0 l) = some 20000000 ∧
      P.shared.clock < 20000000 + minute.timedelta := by
  exact ⟨_, _, Pool.run_of_sched (q := bothTakeOver) rfl, rfl, rfl, rfl, by decide⟩

def isDelete : Cmd IdempotencyRow.key → Bool
  | .stmt (.delete _) => true
  | _ => false

theorem guarded_of_no_delete {ι : Type} [DecidableEq ι] {clients : ι → Client}
    {P₀ P P' : Pool ι (Database ι IdempotencyRow.key) (Cmd IdempotencyRow.key) Cmd.Res
      (Except PyException Answer)}
    {l l' : List (Event ι (Choice String) (Cmd IdempotencyRow.key) Cmd.Res)}
    (h : Guarded SqlStep (TakesOverExpired clients) P₀ l P) (h' : Run SqlStep P l' P')
    (hl : l'.all (fun e => !isDelete e.cmd) = true) :
    Guarded SqlStep (TakesOverExpired clients) P₀ (l ++ l') P' := by
  apply h.extend h'
  rintro l₁ e l₂ Q rfl - key fp ttl - hdelete
  have he := all_eq_true.mp hl e (by simp)
  rw [hdelete] at he
  cases he

/-- The second request takes the key over after the reservation of the first has expired. -/
theorem reserve_exclusive_afterExpiry :
    ∃ l P, Guarded SqlStep (TakesOverExpired retries) (idempotencyPool KeyedMap.empty retries) l P ∧
      P.prog 1 = .ret (.ok (.outcome .acquired)) ∧
      ∃ b ∈ l, b.thread = 1 ∧ 0 + minute.timedelta ≤ b.choice.clock := by
  -- the first request; the second up to its delete; the delete; and the rest
  obtain ⟨l₁, a, l₂, d, l₃, b, P₀, P₁, P₂, P₃, P₄, P, h₁, hsta, h₂, hstd, h₃, hstb, hat, hbt, ha,
    hb, hread, hl₁, hl₂, hl₃, hd, hrow⟩ :
      ∃ l₁ a l₂ d l₃ b P₀ P₁ P₂ P₃ P₄ P,
        Run SqlStep (idempotencyPool KeyedMap.empty retries) l₁ P₀ ∧ SqlStep P₀ a P₁ ∧
        Run SqlStep P₁ l₂ P₂ ∧ SqlStep P₂ d P₃ ∧ Run SqlStep P₃ l₃ P₄ ∧ SqlStep P₄ b P ∧
        a.thread = 0 ∧ b.thread = 1 ∧ P₁.prog 0 = .ret (.ok (.outcome .acquired)) ∧
        P.prog 1 = .ret (.ok (.outcome .acquired)) ∧ readClock (Pool.log 0 l₁) = some 0 ∧
        (l₁ ++ [a]).all (fun e => !isDelete e.cmd) = true ∧
        l₂.all (fun e => !isDelete e.cmd) = true ∧
        (l₃ ++ [b]).all (fun e => !isDelete e.cmd) = true ∧
        readClock (Pool.log d.thread (l₁ ++ [a] ++ l₂)) = some 61000000 ∧
        P₂.shared.rows.get "k" = some (reservedRow "k" "f" 0 60000000) :=
    ⟨_, _, _, _, _, _, _, _, _, _, _, _,
      Pool.run_of_sched (q := List.replicate 2 (0, atSecond 0)) rfl,
      Pool.step_of_stepSched (i := 0) (x := atSecond 0) rfl,
      Pool.run_of_sched (q := List.replicate 5 (1, atSecond 61)) rfl,
      Pool.step_of_stepSched (i := 1) (x := atSecond 61) rfl,
      Pool.run_of_sched (q := List.replicate 2 (1, atSecond 61)) rfl,
      Pool.step_of_stepSched (i := 1) (x := atSecond 61) rfl,
      rfl, rfl, rfl, rfl, rfl, rfl, rfl, rfl, rfl, rfl⟩
  have hok : TakesOverExpired retries (l₁ ++ [a] ++ l₂) P₂ d := by
    intro key fp ttl hclient _ t ht row hrow'
    cases hclient
    cases hd.symm.trans ht
    cases hrow.symm.trans hrow'
    decide
  have hguard₁ : Guarded SqlStep (TakesOverExpired retries)
      (idempotencyPool KeyedMap.empty retries) ([] ++ (l₁ ++ [a])) P₁ :=
    guarded_of_no_delete .nil (h₁.append (.single hsta)) hl₁
  have hguard₂ := Guarded.snoc (guarded_of_no_delete hguard₁ h₂ hl₂) hok hstd
  have hguard := guarded_of_no_delete hguard₂ (h₃.append (.single hstb)) hl₃
  have hlist : [] ++ (l₁ ++ [a]) ++ l₂ ++ [d] ++ (l₃ ++ [b]) =
      l₁ ++ a :: (l₂ ++ d :: l₃ ++ [b]) := by simp
  rw [hlist] at hguard
  refine ⟨_, P, hguard, hb, b, by simp, hbt, ?_⟩
  exact reserve_exclusive hguard (h₁.append (.single hsta)) rfl (hat ▸ ha) (hat ▸ hread)
    (fun e _ he => by cases he) rfl (hbt ▸ hb)

end SAIdempotencyStore

end Varco
