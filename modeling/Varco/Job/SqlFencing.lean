import Varco.Job.Sql

/-!
# Lease fencing of the SQL job store

Any number of clients save, claim, renew and reap jobs at once. A fenced save and a reap first read
the rows they are about to write and then write them by id alone, so what they have checked holds at
the write only if nobody has committed a change of the row in between. `NoOverlap` is that
condition. From the write on the row is locked, so what holds at the write holds at the `COMMIT`:
`Fenced` is the invariant, and `sql_lease_fencing` what it means for a save that succeeds and for a
row that a reap turns back. `check_overtaken` has the two interleavings in which the check is
overtaken.
-/

namespace Varco

open List Sql

namespace SAJobStore

abbrev JobEntry := LogEntry Job.jobId

/-- The client has read the row in a `SELECT`, and has not written it. -/
def Seen (base : Job) (log : List JobEntry) : Prop :=
  (∃ pre x p limit rows post, log = pre ++ ⟨x, .stmt (.select p limit), .ok rows⟩ :: post ∧
    base ∈ rows) ∧ ∀ y ∈ log, ¬Targets base.jobId y

/-- The time at which a reap tests leases: its argument, or its reading of the clock. -/
def ReapTime (now : Option Instant) (log : List JobEntry) (current : Instant) : Prop :=
  now = some current ∨ ∃ x, ⟨x, .now, current⟩ ∈ log

/-- The calls that read a row, check it and write it by id: fenced saves and reaps. -/
def Client.checks : Client → Bool
  | .save _ (some _) => true
  | .reap .. => true
  | _ => false

/-- What a call of `client` may send after the log `log`. -/
def Issued (client : Client) (log : List JobEntry) : Sql.Cmd Job.jobId → Prop
  | .now => True
  | .stmt s =>
    match client, s with
    | .save job (some e), .delete k =>
      k = job.jobId ∧ ∃ base, base.jobId = k ∧ Seen base log ∧ base.leaseEpoch = e
    | .save job (some _), .insert a =>
      a = job ∧ ∃ pre x n, log = pre ++ [⟨x, .stmt (.delete job.jobId), .ok n⟩]
    | .save job (some _), .commit => ∃ pre x, log = pre ++ [⟨x, .stmt (.insert job), .ok ()⟩]
    | .save _ (some _), .update .. => False
    | .reap now _, .update k _ f _ =>
      ∃ base current, base.jobId = k ∧ Seen base log ∧ ReapTime now log current ∧
        base.leaseExpired current = true ∧ f = reapUpdate base
    | .reap .., .delete _ => False
    | .reap .., .insert _ => False
    | _, _ => True

def Returned (client : Client) (log : List JobEntry) : Except PyException (List Job) → Prop
  | .ok _ => ∀ job e, client = .save job (some e) → ∃ x, ⟨x, .stmt .commit, .ok ()⟩ ∈ log
  | .error _ => True

variable {client : Client} {log : List JobEntry} {base job : Job}

theorem issued_rollback (client : Client) (log : List JobEntry) :
    Issued client log (.stmt .rollback) := by
  rcases client with ⟨_, _ | _⟩ | _ | _ | _ <;> trivial

theorem not_targets {k : UUID} {x : Sql.Choice UUID} {s : Stmt Job.jobId}
    {r : Except PyException s.Res} (h : s.target ≠ some k) :
    ¬Targets k (⟨x, .stmt s, r⟩ : JobEntry) := by
  rintro ⟨s', hs, ht⟩
  cases hs
  exact h ht

theorem not_targets_now {k : UUID} {x : Sql.Choice UUID} {t : Instant} :
    ¬Targets k (⟨x, .now, t⟩ : JobEntry) := by
  rintro ⟨s, hs, -⟩
  cases hs

/-! ## What the methods send -/

theorem spec_save_some {e : ℤ} :
    Spec (Issued (.save job (some e)))
      (fun l a => a = .ok () → ∃ x, ⟨x, .stmt .commit, .ok ()⟩ ∈ l) (save job (some e)) [] := by
  apply spec_transaction (Θ := fun _ _ => True)
  · apply Prog.Local.bindExcept
    apply spec_execute trivial
    · intro x rows hrows
      apply Prog.Local.pure_ok
      cases hrow : rows.head? with
      | none => exact Prog.Local.throw fun b hb => by cases hb
      | some current =>
        simp only
        split_ifs with hepoch
        · exact Prog.Local.throw fun b hb => by cases hb
        · rw [not_not] at hepoch
          have hmem : current ∈ rows := mem_of_mem_head? hrow
          have hid : current.jobId = job.jobId := by simpa using hrows.1 current hmem
          have hseen : Seen current
              [⟨x, .stmt (.select (fun j => j.jobId = job.jobId) none), .ok rows⟩] := by
            refine ⟨⟨[], x, _, _, rows, [], rfl, hmem⟩, fun y hy => ?_⟩
            rw [mem_singleton.mp hy]
            exact not_targets (by simp [Stmt.target])
          refine spec_execute ⟨rfl, current, hid, hseen, hepoch⟩ ?_ fun _ _ b hb => by cases hb
          intro x₁ n _
          refine spec_execute_last ⟨rfl, _, x₁, n, rfl⟩ ?_
          intro x₂ r b hb
          subst hb
          exact ⟨⟨_, x₂, rfl⟩, trivial⟩
    · exact fun _ _ b hb => by cases hb
  · exact issued_rollback _
  · exact fun l b x _ _ _ => ⟨x, by simp⟩
  · exact fun l x r e _ he => by cases he

/-- The loop of a reap sends one update for each row of its list, and the ids are distinct: a row
that is left is not written yet. -/
theorem spec_reapLoop {now : Option Instant} {limit : ℤ} {current : Instant}
    {rows reaped : List Job} (htime : ReapTime now log current)
    (hexpired : ∀ j ∈ rows, j.leaseExpired current = true)
    (hnodup : (rows.map Job.jobId).Nodup) (hseen : ∀ j ∈ rows, Seen j log) :
    Spec (Issued (.reap now limit)) (fun l a => ∀ b, a = .ok b →
      Issued (.reap now limit) l (.stmt .commit) ∧ True) (reapLoop rows reaped) log := by
  induction rows generalizing reaped log with
  | nil => exact Prog.Local.pure_ok fun _ _ => ⟨trivial, trivial⟩
  | cons row rows ih =>
    rw [map_cons, nodup_cons] at hnodup
    have hrow : Seen row log := hseen row mem_cons_self
    refine spec_execute ⟨row, current, rfl, hrow, htime, hexpired row mem_cons_self, rfl⟩ ?_
      fun _ _ b hb => by cases hb
    intro x n _
    apply ih
    · rcases htime with htime | ⟨y, hy⟩
      · exact Or.inl htime
      · exact Or.inr ⟨y, mem_append_left _ hy⟩
    · exact fun j hj => hexpired j (mem_cons_of_mem _ hj)
    · exact hnodup.2
    · intro j hj
      obtain ⟨⟨pre, y, p, lim, rs, post, hlog, hmem⟩, hnot⟩ := hseen j (mem_cons_of_mem _ hj)
      have hne : row.jobId ≠ j.jobId := by
        intro he
        exact hnodup.1 (he ▸ mem_map_of_mem hj)
      refine ⟨⟨pre, y, p, lim, rs, post ++ [_], by rw [hlog]; simp; rfl, hmem⟩, fun z hz => ?_⟩
      rcases mem_append.mp hz with hz | hz
      · exact hnot z hz
      · rw [mem_singleton.mp hz]
        exact not_targets (by simpa [Stmt.target] using hne)

theorem spec_reapRows {now : Option Instant} {limit : ℤ} {current : Instant}
    (htime : ReapTime now log current) (hlog : ∀ k, ∀ y ∈ log, ¬Targets k y) :
    Spec (Issued (.reap now limit)) (fun _ _ => True) (reapRows current limit) log := by
  apply spec_transaction (Θ := fun _ _ => True)
  · apply spec_execute trivial
    · intro x rows hrows
      apply spec_reapLoop
      · rcases htime with htime | ⟨y, hy⟩
        · exact Or.inl htime
        · exact Or.inr ⟨y, mem_append_left _ hy⟩
      · exact hrows.1
      · exact hrows.2
      · intro j hj
        refine ⟨⟨log, x, _, _, rows, [], rfl, hj⟩, fun y hy => ?_⟩
        rcases mem_append.mp hy with hy | hy
        · exact hlog j.jobId y hy
        · rw [mem_singleton.mp hy]
          exact not_targets (by simp [Stmt.target])
    · exact fun _ _ b hb => by cases hb
  · exact issued_rollback _
  · exact fun _ _ _ _ _ => trivial
  · exact fun _ _ _ _ _ => trivial

/-- The calls without a check of their own send what they like. -/
theorem spec_unchecked {p : Method (List Job)} (h : client.checks = false) :
    Spec (Issued client) (Returned client) p log := by
  apply Prog.Local.of_forall
  · intro l c
    cases c with
    | now => trivial
    | stmt s =>
      rcases client with ⟨_, _ | _⟩ | _ | _ | _
      · cases s <;> trivial
      · cases h
      · cases s <;> trivial
      · cases s <;> trivial
      · cases h
  · intro l a
    cases a with
    | ok jobs =>
      rintro job e rfl
      cases h
    | error e => trivial

/-- **What every client sends and returns.** -/
theorem spec_run (store : SAJobStore) (client : Client) :
    Spec (Issued client) (Returned client) (client.run store) [] := by
  cases client with
  | save job e =>
    cases e with
    | none => exact spec_unchecked rfl
    | some e =>
      apply Prog.Local.bindExcept
      apply spec_save_some.mono
      intro l a ha
      cases a with
      | error e => trivial
      | ok u => exact Prog.Local.pure_ok fun _ _ _ => ha rfl
  | tryClaim id o ttl => exact spec_unchecked rfl
  | renew id o e ttl => exact spec_unchecked rfl
  | reap now limit =>
    have hreturned : ∀ (l : List JobEntry) a, True → Returned (.reap now limit) l a := by
      intro l a _
      cases a with
      | ok jobs => exact fun job e hc => by cases hc
      | error e => trivial
    cases now with
    | some current => exact (spec_reapRows (Or.inl rfl) (by simp)).mono hreturned
    | none =>
      apply spec_now trivial
      intro x t
      refine (spec_reapRows (Or.inr ⟨x, by simp⟩) ?_).mono hreturned
      intro k y hy
      rw [nil_append, mem_singleton] at hy
      rw [hy]
      exact not_targets_now

/-! ## The clients over one table -/

section

variable {ι : Type} [DecidableEq ι]

/-- The calls of the clients over one table, with no transaction open. -/
def sqlPool (store : SAJobStore) (rows : KeyedMap Job.jobId) (clients : ι → Client) :
    Pool ι (Database ι Job.jobId) (Sql.Cmd Job.jobId) Sql.Cmd.Res (Except PyException (List Job)) :=
  ⟨{ rows := rows }, fun i => (clients i).run store⟩

/-- The command writes the row of `k` by its id. -/
def Rewrites (k : UUID) : Sql.Cmd Job.jobId → Prop
  | .stmt (.update k' ..) => k' = k
  | .stmt (.delete k') => k' = k
  | _ => False

/-- Between the `SELECT` of a fenced save or a reap and its write of a row by id, no other client
commits a statement for the row. -/
def NoOverlap (clients : ι → Client)
    (past : List (Event ι (Sql.Choice UUID) (Sql.Cmd Job.jobId) Sql.Cmd.Res))
    (_ : Pool ι (Database ι Job.jobId) (Sql.Cmd Job.jobId) Sql.Cmd.Res
      (Except PyException (List Job)))
    (e : Event ι (Sql.Choice UUID) (Sql.Cmd Job.jobId) Sql.Cmd.Res) : Prop :=
  (clients e.thread).checks = true → ∀ k, Rewrites k e.cmd →
    ∀ l₁ (g : Event ι _ (Sql.Cmd Job.jobId) _) l₂, past = l₁ ++ g :: l₂ →
      g.thread = e.thread →
      (∃ p limit, g.cmd = .stmt (.select p limit)) →
    ∀ l₃ (a : Event ι _ (Sql.Cmd Job.jobId) _) l₄, l₂ = l₃ ++ a :: l₄ → a.thread ≠ e.thread →
      a.cmd = .stmt .commit →
      ∀ y ∈ Pool.log a.thread (l₁ ++ g :: l₃), ¬Targets k y

variable {store : SAJobStore} {rows : KeyedMap Job.jobId} {clients : ι → Client} {k : UUID} {i : ι}
  {e : Event ι (Sql.Choice UUID) (Sql.Cmd Job.jobId) Sql.Cmd.Res}
  {l l₁ l₂ : List (Event ι (Sql.Choice UUID) (Sql.Cmd Job.jobId) Sql.Cmd.Res)}
  {P P' : Pool ι (Database ι Job.jobId) (Sql.Cmd Job.jobId) Sql.Cmd.Res
    (Except PyException (List Job))}

/-- **What any interleaving sends.** -/
theorem sent_of_run (h : Run SqlStep (sqlPool store rows clients) (l₁ ++ e :: l₂) P) :
    Issued (clients e.thread) (Pool.log e.thread l₁) e.cmd :=
  Pool.issued (P := sqlPool store rows clients) (Φ := fun i => Issued (clients i))
    (Ψ := fun i => Returned (clients i)) (fun _ _ _ _ _ _ => Database.answer_of_exec)
    (fun i => spec_run store (clients i)) h

theorem returned_of_run (h : Run SqlStep (sqlPool store rows clients) l P)
    {a : Except PyException (List Job)} (ha : P.prog i = .ret a) :
    Returned (clients i) (Pool.log i l) a :=
  Pool.returned (P := sqlPool store rows clients) (Φ := fun i => Issued (clients i))
    (Ψ := fun i => Returned (clients i)) (fun _ _ _ _ _ _ => Database.answer_of_exec)
    (fun i => spec_run store (clients i)) h ha

omit [DecidableEq ι] in
theorem no_drafts (i : ι) : (sqlPool store rows clients).shared.drafts i = [] := rfl

/-- A client sees the committed row of a job that it has not written. -/
theorem view_of_not_targets (h : Run SqlStep (sqlPool store rows clients) l P)
    (hk : ∀ y ∈ Pool.log i l, ¬Targets k y) : (P.shared.view i).get k = P.shared.rows.get k := by
  apply Database.view_get
  rintro c hc rfl
  obtain ⟨y, hy, ht⟩ := sent_of_draft no_drafts h hc
  exact hk y hy ht

/-- **An undisturbed write by id goes over the row that was read.** -/
theorem write_base (h : Run SqlStep (sqlPool store rows clients) l P)
    (hok : NoOverlap clients l P e) (hchecks : (clients e.thread).checks = true)
    (hwrite : Rewrites base.jobId e.cmd)
    (hseen : Seen base (Pool.log e.thread l)) :
    P.shared.rows.get base.jobId = some base ∧
      (P.shared.view e.thread).get base.jobId = some base := by
  obtain ⟨⟨pre, x, p, limit, found, post, hlog, hmem⟩, hnot⟩ := hseen
  have hrow : P.shared.rows.get base.jobId = some base := by
    obtain ⟨l₁, g, l₂, rfl, hgt, hg, -, -⟩ := Pool.split_log hlog
    obtain ⟨P₁, P₂, h₁, hst, h₂⟩ := h.at_label
    have hown : ∀ l', l' <+: l₁ ++ g :: l₂ → ∀ y ∈ Pool.log e.thread l', ¬Targets base.jobId y := by
      rintro l' ⟨l'', hl'⟩ y hy
      apply hnot y
      rw [← hl', Pool.log_append]
      exact mem_append_left _ hy
    -- the row as the `SELECT` found it
    have hread : P₁.shared.rows.get base.jobId = some base := by
      rw [← view_of_not_targets h₁ (hown l₁ (prefix_append ..))]
      obtain ⟨⟨y, c, r⟩, j⟩ := g
      cases hg
      cases hgt
      exact ((Database.rows_of_select (Database.perform_of_ok hst.exec_eq)).1 base hmem).1
    have hnotCommit : g.cmd ≠ .stmt .commit := by
      obtain ⟨⟨y, c, r⟩, j⟩ := g
      cases hg
      exact fun hc => by cases hc
    have hselect : P₂.shared.rows.get base.jobId = P₁.shared.rows.get base.jobId := by
      rw [(effect_of_step hst).rows_eq hnotCommit]
    -- and nobody has committed a statement for it since
    have hquiet : P.shared.rows.get base.jobId = P₂.shared.rows.get base.jobId := by
      apply get_of_quiet no_drafts (h₁.append (.single hst)) h₂
      intro l₃ a l₄ hl₂ hcommit
      have happ : l₁ ++ [g] ++ l₃ = l₁ ++ g :: l₃ := by simp
      rw [happ]
      by_cases hi : a.thread = e.thread
      · rw [hi]
        apply hown
        exact ⟨a :: l₄, by rw [hl₂]; simp⟩
      · refine hok hchecks base.jobId hwrite l₁ g l₂ rfl hgt ⟨p, limit, ?_⟩ l₃ a l₄ hl₂ hi hcommit
        exact congrArg Entry.cmd hg
    rw [hquiet, hselect, hread]
  exact ⟨hrow, by rw [view_of_not_targets h hnot, hrow]⟩

/-! ## Fencing -/

/-- The row `stored` that a change of `client` is made over. -/
def Client.Over (log : List JobEntry) (c : Change Job.jobId) (stored : Option Job) : Client → Prop
  | .save _ (some e) => ∃ base, stored = some base ∧ base.leaseEpoch = e
  | .reap now _ => ∃ base current, stored = some base ∧ ReapTime now log current ∧
      base.leaseExpired current = true ∧ c = .put base.reaped
  | _ => True

theorem Client.Over.mono {c : Change Job.jobId} {stored : Option Job} {y : List JobEntry}
    (h : client.Over log c stored) : client.Over (log ++ y) c stored := by
  rcases client with ⟨_, _ | _⟩ | _ | _ | _
  · trivial
  · exact h
  · trivial
  · trivial
  · obtain ⟨base, current, hstored, htime, hrest⟩ := h
    refine ⟨base, current, hstored, ?_, hrest⟩
    rcases htime with htime | ⟨x, hx⟩
    · exact Or.inl htime
    · exact Or.inr ⟨x, mem_append_left _ hx⟩

/-- Every change of an open transaction is made over the row that its client has checked. -/
def Fenced (clients : ι → Client)
    (l : List (Event ι (Sql.Choice UUID) (Sql.Cmd Job.jobId) Sql.Cmd.Res))
    (P : Pool ι (Database ι Job.jobId) (Sql.Cmd Job.jobId) Sql.Cmd.Res
      (Except PyException (List Job))) :
    Prop :=
  ∀ i, ∀ c ∈ P.shared.drafts i,
    (clients i).Over (Pool.log i l) c (P.shared.rows.get c.rowKey)

/-- An insert of a fenced save comes after its delete, which has locked the row. -/
theorem erased_of_insert {e' : ℤ} {a : Job}
    (h : Guarded SqlStep (NoOverlap clients) (sqlPool store rows clients) l P)
    (hclient : clients i = .save job (some e'))
    (hsent : Issued (clients i) (Pool.log i l) (.stmt (.insert a))) :
    a = job ∧ .erase job.jobId ∈ P.shared.drafts i := by
  rw [hclient] at hsent
  obtain ⟨rfl, pre, x, n, hlog⟩ := hsent
  refine ⟨rfl, ?_⟩
  obtain ⟨l₁, d, l₂, rfl, hdt, hd, -, hlog₂⟩ := Pool.split_log hlog
  obtain ⟨P₁, P₂, h₁, hok, hst, h₂, hidle⟩ := h.at_label
  have hcmd : d.cmd = .stmt (.delete a.jobId) := congrArg Entry.cmd hd
  have hsent₁ := sent_of_run h₂.run
  rw [hdt, hclient, hcmd] at hsent₁
  obtain ⟨-, base, hid, hseen, -⟩ := hsent₁
  have hchecks : (clients d.thread).checks = true := by
    rw [hdt, hclient]
    rfl
  obtain ⟨hrow, hview⟩ := write_base h₁.run hok hchecks (by rw [hcmd]; exact hid.symm) (hdt ▸ hseen)
  rw [drafts_of_idle hidle hlog₂]
  rw [hid] at hrow hview
  obtain ⟨⟨y, c, r⟩, j⟩ := d
  cases hd
  cases hdt
  have hdrafts := Database.drafts_of_delete hst.exec_eq (by rw [hview]; simp) (by rw [hrow]; simp)
  rw [hdrafts]
  simp

/-- **Every step keeps the fence.** -/
theorem Fenced.step (hf : Fenced clients l P)
    (h : Guarded SqlStep (NoOverlap clients) (sqlPool store rows clients) l P)
    (hok : NoOverlap clients l P e) (hst : SqlStep P e P')
    (hrun : Run SqlStep (sqlPool store rows clients) (l ++ [e]) P') :
    Fenced clients (l ++ [e]) P' := by
  intro i c hc
  have heff := effect_of_step hst
  by_cases hi : e.thread = i
  · subst hi
    rw [Pool.log_snoc_self]
    obtain ⟨hrows, hc⟩ := heff.drafts_self hc
    rw [hrows]
    rcases hc with hc | ⟨s, hs, hmakes⟩
    · exact (hf e.thread c hc).mono
    · apply Client.Over.mono
      have hsent := sent_of_run hrun
      have hmakes' : Database.Makes (P.shared.view e.thread) c s := hmakes
      change (clients e.thread).Over _ c (P.shared.rows.get c.rowKey)
      rw [hs] at hsent
      -- the statement is the delete or the insert of a save, or an update of a reap
      cases hclient : clients e.thread with
      | tryClaim => trivial
      | renew => trivial
      | save job e' =>
        cases e' with
        | none => trivial
        | some e' =>
          cases s with
          | delete k =>
            rw [hclient] at hsent
            obtain ⟨-, base, hid, hseen, hepoch⟩ := hsent
            obtain ⟨-, rfl⟩ := hmakes'
            have hchecks : (clients e.thread).checks = true := by rw [hclient]; rfl
            have hrow := (write_base h.run hok hchecks (by rw [hs]; exact hid.symm) hseen).1
            exact ⟨base, by rw [← hrow, hid]; rfl, hepoch⟩
          | insert a =>
            obtain ⟨rfl, herased⟩ := erased_of_insert h hclient hsent
            obtain ⟨-, rfl⟩ := hmakes'
            have hover := hf e.thread _ herased
            rw [hclient] at hover
            exact hover
          | update =>
            rw [hclient] at hsent
            exact absurd hsent not_false
          | _ => exact absurd hmakes' not_false
      | reap now limit =>
        rw [hclient] at hsent
        cases s with
        | update k p f hf' =>
          obtain ⟨base, current, hid, hseen, htime, hexpired, rfl⟩ := hsent
          have hchecks : (clients e.thread).checks = true := by rw [hclient]; rfl
          obtain ⟨hrow, hview⟩ := write_base h.run hok hchecks (by rw [hs]; exact hid.symm) hseen
          obtain ⟨a, ha, -, rfl⟩ := hmakes'
          rw [← hid, hview] at ha
          cases ha
          exact ⟨base, current, hrow, htime, hexpired, rfl⟩
        | delete => exact absurd hsent not_false
        | insert => exact absurd hsent not_false
        | _ => exact absurd hmakes' not_false
  · rw [Pool.log_snoc_ne l hi]
    rw [heff.drafts_of_ne hi] at hc
    -- the row is locked by `i`
    have hlocked : P.shared.Locked :=
      locked_of_run h.run (Database.locked_of_no_drafts no_drafts)
    have hsame : P'.shared.rows.get c.rowKey = P.shared.rows.get c.rowKey :=
      heff.get_of_held hlocked hi (hlocked i c hc)
    rw [hsame]
    exact hf i c hc

theorem fenced_of_run
    (h : Guarded SqlStep (NoOverlap clients) (sqlPool store rows clients) l P) :
    Fenced clients l P := by
  induction h with
  | nil =>
    intro i c hc
    cases hc
  | snoc h hok hst ih => exact ih.step h hok hst (h.run.append (.single hst))

/-- **Fenced saves and reaps** in the runs without overlap. A fenced save that succeeds has gone
over a row at the epoch it expected, at the `COMMIT` that made it visible. A row that a reap changes
was RUNNING with an expired lease when the change was made visible, and so was every row that a reap
updates at the `UPDATE`. -/
theorem sql_lease_fencing
    (h : Guarded SqlStep (NoOverlap clients) (sqlPool store rows clients) l P) :
    (∀ i job e' jobs, clients i = .save job (some e') → P.prog i = .ret (.ok jobs) →
      ∃ l₁ a l₂ P₁ P₂ base, l = l₁ ++ a :: l₂ ∧ a.thread = i ∧ a.cmd = .stmt .commit ∧
        Run SqlStep (sqlPool store rows clients) l₁ P₁ ∧ SqlStep P₁ a P₂ ∧
        P₁.shared.rows.get job.jobId = some base ∧ base.leaseEpoch = e' ∧
        P₂.shared.rows.get job.jobId = some job) ∧
    (∀ l₁ (a : Event ..) l₂ P₁ P₂ now limit id, l = l₁ ++ a :: l₂ →
      Run SqlStep (sqlPool store rows clients) l₁ P₁ → SqlStep P₁ a P₂ →
      clients a.thread = .reap now limit → P₂.shared.rows.get id ≠ P₁.shared.rows.get id →
      ∃ base current, P₁.shared.rows.get id = some base ∧
        ReapTime now (Pool.log a.thread l₁) current ∧ base.leaseExpired current = true ∧
        P₂.shared.rows.get id = some base.reaped) ∧
    (∀ l₁ (a : Event ι _ (Sql.Cmd Job.jobId) _) l₂ P₁ now limit id p f hf, l = l₁ ++ a :: l₂ →
      Run SqlStep (sqlPool store rows clients) l₁ P₁ → clients a.thread = .reap now limit →
      a.cmd = .stmt (.update id p f hf) →
      ∃ base current, P₁.shared.rows.get id = some base ∧
        ReapTime now (Pool.log a.thread l₁) current ∧ base.leaseExpired current = true) := by
  refine ⟨?_, ?_, ?_⟩
  · intro i job e' jobs hclient hret
    obtain ⟨x, hx⟩ := returned_of_run h.run hret job e' hclient
    obtain ⟨a, ha, rfl, hax⟩ := Pool.mem_log.mp hx
    obtain ⟨l₁, l₂, rfl⟩ := append_of_mem ha
    obtain ⟨P₁, P₂, h₁, -, hst, h₂, -⟩ := h.at_label
    have hcommit : a.cmd = .stmt .commit := congrArg Entry.cmd hax
    -- the last thing before the commit was the insert
    have hsent := sent_of_run h₂.run
    rw [hclient, hcommit] at hsent
    obtain ⟨pre, y, hlog⟩ := hsent
    obtain ⟨cs, hdrafts⟩ := drafts_of_inserted h₁.run hlog
    have hover := fenced_of_run h₁ a.thread (.put job) (by rw [hdrafts]; simp)
    rw [hclient] at hover
    obtain ⟨base, hbase, hepoch⟩ := hover
    refine ⟨l₁, a, l₂, P₁, P₂, base, rfl, rfl, hcommit, h₁.run, hst, hbase, hepoch, ?_⟩
    have hview : (P₁.shared.view a.thread).get job.jobId = some job := by
      unfold Database.view
      rw [hdrafts, Change.applyAll_snoc, Change.get_apply]
      exact if_pos rfl
    obtain ⟨⟨z, c, r⟩, j⟩ := a
    cases hax
    rw [(Database.eq_of_commit hst.exec_eq).1]
    exact hview
  · rintro l₁ a l₂ P₁ P₂ now limit id rfl h₁ hst hclient hne
    obtain ⟨P₁', P₂', h₁', -, -, -, -⟩ := h.at_label
    obtain rfl := h₁.det (fun _ _ _ _ => Pool.Step.det) h₁'.run
    rcases (effect_of_step hst).get_cases id with hsame | ⟨c, hc, rfl, hafter⟩
    · exact absurd hsame hne
    · have hover := fenced_of_run h₁' a.thread c hc
      rw [hclient] at hover
      obtain ⟨base, current, hbase, htime, hexpired, rfl⟩ := hover
      exact ⟨base, current, hbase, htime, hexpired, hafter⟩
  · rintro l₁ a l₂ P₁ now limit id p f hf rfl h₁ hclient hcmd
    obtain ⟨P₁', P₂', h₁', hok, -, h₂, -⟩ := h.at_label
    obtain rfl := h₁.det (fun _ _ _ _ => Pool.Step.det) h₁'.run
    have hsent := sent_of_run h₂.run
    rw [hclient, hcmd] at hsent
    obtain ⟨base, current, rfl, hseen, htime, hexpired, -⟩ := hsent
    have hchecks : (clients a.thread).checks = true := by rw [hclient]; rfl
    have hrow := (write_base h₁ hok hchecks (by rw [hcmd]; rfl) hseen).1
    exact ⟨base, current, hrow, htime, hexpired⟩

end

/-! ## Checks that are overtaken -/

def runningJob : Job :=
  { jobId := 1, status := .running, ownerId := some "a", leaseEpoch := 1,
    leaseExpiresAt := some 10000000 }

def completedJob : Job := { runningJob with status := .completed }

def saveAndReap : ℕ → Client
  | 0 => .save completedJob (some 1)
  | _ => .reap none 100

def oneRow : KeyedMap Job.jobId := KeyedMap.empty.put runningJob

def late : Sql.Choice UUID := { clock := 20000000, order := [1] }

/-- **The job is reaped between the check of a fenced save and its write**: the save succeeds over a
row at epoch 2. **And it is completed between the read of a reap and its write**: the completed job
is PENDING again. -/
theorem check_overtaken :
    (∃ l a P₁ P₂ base, Run SqlStep (sqlPool {} oneRow saveAndReap) l P₁ ∧ SqlStep P₁ a P₂ ∧
      a.thread = 0 ∧ a.cmd = .stmt .commit ∧ P₂.prog 0 = .ret (.ok []) ∧
      P₁.shared.rows.get 1 = some base ∧ base.leaseEpoch = 2 ∧
      P₂.shared.rows.get 1 = some completedJob) ∧
    (∃ l₁ l₂ P₁ P₂, Run SqlStep (sqlPool {} oneRow saveAndReap) l₁ P₁ ∧ Run SqlStep P₁ l₂ P₂ ∧
      P₁.shared.rows.get 1 = some completedJob ∧ l₂.map Event.thread = [1, 1] ∧
      P₂.shared.rows.get 1 = some completedJob.reaped) := by
  constructor
  · refine ⟨_, _, _, _, _,
      Pool.run_of_sched (q := (0, late) :: List.replicate 4 (1, late) ++ List.replicate 2 (0, late))
        rfl,
      Pool.step_of_stepSched (i := 0) (x := late) rfl, rfl, rfl, rfl, rfl, rfl, rfl⟩
  · refine ⟨_, _, _, _,
      Pool.run_of_sched (q := List.replicate 2 (1, late) ++ List.replicate 4 (0, late)) rfl,
      Pool.run_of_sched (q := List.replicate 2 (1, late)) rfl, rfl, rfl, rfl⟩

/-- A worker saves its job, which is reaped when its lease has expired, and then saves it again. -/
def inTurn : ℕ → Client
  | 0 => .save runningJob (some 1)
  | 1 => .reap none 100
  | _ => .save completedJob (some 1)

/-- One after the other: the first save goes over the row at epoch 1, the reap changes the row with
the expired lease, and the last save is refused. -/
theorem sql_lease_fencing_inTurn :
    ∃ l P, Guarded SqlStep (NoOverlap inTurn) (sqlPool {} oneRow inTurn) l P ∧
      P.shared.rows.get 1 = some runningJob.reaped ∧
      (∃ l₁ P₁ base, l₁ <+: l ∧ Run SqlStep (sqlPool {} oneRow inTurn) l₁ P₁ ∧
        P₁.shared.rows.get 1 = some base ∧ base.leaseEpoch = 1) ∧
      ∃ e, P.prog 2 = .ret (.error e) ∧ e.typeName = "StaleLeaseError" := by
  obtain ⟨l, P, e, hrun, hsaved, hreaped, hraised, htype, hturns⟩ : ∃ l P e,
      Run SqlStep (sqlPool {} oneRow inTurn) l P ∧ P.prog 0 = .ret (.ok []) ∧
        P.shared.rows.get 1 = some runningJob.reaped ∧ P.prog 2 = .ret (.error e) ∧
        e.typeName = "StaleLeaseError" ∧ (l.map Event.thread).Pairwise (· ≤ ·) :=
    ⟨_, _, _, Pool.run_of_sched (q := List.replicate 4 (0, late) ++ List.replicate 4 (1, late) ++
      List.replicate 2 (2, late)) rfl, rfl, rfl, rfl, rfl, by decide⟩
  have hguard : Guarded SqlStep (NoOverlap inTurn) (sqlPool {} oneRow inTurn) l P := by
    apply Guarded.of_run hrun
    rintro _ e l₂ Q rfl - - k - l₃ g l₄ rfl hg - l₅ a l₆ rfl hne
    exact absurd (Pool.thread_of_between hturns hg (by simp)) hne
  obtain ⟨l₁, a, l₂, P₁, P₂, base, hl, -, -, h₁, -, hbase, hepoch, -⟩ :=
    (sql_lease_fencing hguard).1 0 runningJob 1 [] rfl hsaved
  exact ⟨l, P, hguard, hreaped, ⟨l₁, P₁, base, ⟨a :: l₂, hl.symm⟩, h₁, hbase, hepoch⟩,
    e, hraised, htype⟩

end SAJobStore

end Varco
