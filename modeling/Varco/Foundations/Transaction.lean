import Mathlib.Data.Int.Order.Basic
import Varco.Foundations.Sql

/-!
# Clients of a database

A client is a program that reads the clock and sends statements. `transaction` is
`async with engine.begin()`: it commits when its body returns and rolls back when it raises. The
rules for `execute` and `transaction` extend those of `Prog.Local`.

The second part is about any number of clients at once: what a client has changed in its open
transaction it has sent a statement for (`sent_of_draft`), so a row is the same at two points of a
run if nobody in between has committed a statement for it (`get_of_quiet`).
-/

namespace Varco

namespace Sql

variable {κ α β γ : Type} {key : α → κ}

abbrev Sq (key : α → κ) (β : Type) := ExceptT PyException (Prog (Cmd key) Cmd.Res) β

/-- `datetime.now(UTC)` -/
def now : Sq key Instant := Prog.call Cmd.now

/-- `await conn.execute(...)` -/
def execute (s : Stmt key) : Sq key s.Res := Prog.await (.stmt s) id

def abort (e : PyException) : Sq key β := do
  let _ ← Prog.call (.stmt .rollback)
  throw e

/-- `async with engine.begin()` -/
def transaction (body : Sq key β) : Sq key β := do
  match ← Prog.attempt body with
  | .ok b =>
    match ← Prog.attempt (execute .commit) with
    | .ok _ => pure b
    | .error e => abort e
  | .error e => abort e

/-- `async with engine.connect()`: nothing is committed. -/
def connection (body : Sq key β) : Sq key β := do
  match ← Prog.attempt body with
  | .ok b => do
    let _ ← Prog.call (.stmt .rollback)
    pure b
  | .error e => abort e

/-! ## Rules -/

abbrev LogEntry (key : α → κ) := Entry (Choice κ) (Cmd key) Cmd.Res

/-- `Spec Φ Ψ p log`: after the log `log`, every command of `p` satisfies `Φ` and every way in which
`p` ends satisfies `Ψ`. -/
abbrev Spec (Φ : List (LogEntry key) → Cmd key → Prop)
    (Ψ : List (LogEntry key) → Except PyException β → Prop) (p : Sq key β)
    (log : List (LogEntry key)) : Prop :=
  Prog.Local (fun _ c r => Database.Answer c r) Φ Ψ p log

variable {Φ : List (LogEntry key) → Cmd key → Prop} {log : List (LogEntry key)}
  {Ψ : List (LogEntry key) → Except PyException β → Prop}

theorem spec_now {f : Instant → Sq key β} (hΦ : Φ log .now)
    (h : ∀ x t, Spec Φ Ψ (f t) (log ++ [⟨x, .now, t⟩])) : Spec Φ Ψ (now >>= f) log :=
  Prog.Local.call hΦ fun x t _ => h x t

theorem spec_execute {s : Stmt key} {f : s.Res → Sq key β} (hΦ : Φ log (.stmt s))
    (hok : ∀ x r, Database.Answer (.stmt s) (.ok r) → Spec Φ Ψ (f r) (log ++ [⟨x, .stmt s, .ok r⟩]))
    (herr : ∀ x e, Ψ (log ++ [⟨x, .stmt s, .error e⟩]) (.error e)) :
    Spec Φ Ψ (execute s >>= f) log := by
  apply Prog.Local.bindAwait hΦ
  · intro x r a hr hg
    obtain rfl : r = .ok a := hg
    exact hok x a hr
  · intro x r e hg
    obtain rfl : r = .error e := hg
    exact herr x e

theorem spec_execute_last {s : Stmt key} {Ψ : List (LogEntry key) → Except PyException s.Res → Prop}
    (hΦ : Φ log (.stmt s)) (h : ∀ x r, Ψ (log ++ [⟨x, .stmt s, r⟩]) r) :
    Spec Φ Ψ (execute s) log :=
  Prog.Local.await hΦ fun x r _ => h x r

theorem spec_abort {e : PyException} (hΦ : Φ log (.stmt .rollback))
    (herr : ∀ x r, Ψ (log ++ [⟨x, .stmt .rollback, r⟩]) (.error e)) :
    Spec Φ Ψ (abort e : Sq key β) log :=
  Prog.Local.call hΦ fun x r _ => Prog.Local.throw (herr x r)

/-- A transaction: its body returns and it is committed, or it is rolled back. -/
theorem spec_transaction {body : Sq key β} {Θ : List (LogEntry key) → β → Prop}
    (hbody : Spec Φ (fun l a => ∀ b, a = .ok b → Φ l (.stmt .commit) ∧ Θ l b) body log)
    (hroll : ∀ l, Φ l (.stmt .rollback))
    (hok : ∀ l b x, log <+: l → Θ l b → Ψ (l ++ [⟨x, .stmt .commit, .ok ()⟩]) (.ok b))
    (herr : ∀ l x r e, log <+: l → Ψ (l ++ [⟨x, .stmt .rollback, r⟩]) (.error e)) :
    Spec Φ Ψ (transaction body) log := by
  apply Prog.Local.attempt
  apply hbody.grows.mono
  intro l a ha
  obtain ⟨hpre, ha⟩ := ha
  cases a with
  | error e => exact spec_abort (hroll l) fun x r => herr l x r e hpre
  | ok b =>
    obtain ⟨hcommit, hΘ⟩ := ha b rfl
    apply Prog.Local.attempt
    apply spec_execute_last hcommit
    intro x r
    cases r with
    | ok _ => exact Prog.Local.pure_ok (hok l b x hpre hΘ)
    | error e =>
      apply spec_abort (hroll _)
      intro x' r'
      exact herr _ x' r' e (hpre.trans (List.prefix_append ..))

theorem spec_connection {body : Sq key β} {Θ : List (LogEntry key) → β → Prop}
    (hbody : Spec Φ (fun l a => ∀ b, a = .ok b → Θ l b) body log)
    (hroll : ∀ l, Φ l (.stmt .rollback))
    (hok : ∀ l b x r, log <+: l → Θ l b → Ψ (l ++ [⟨x, .stmt .rollback, r⟩]) (.ok b))
    (herr : ∀ l x r e, log <+: l → Ψ (l ++ [⟨x, .stmt .rollback, r⟩]) (.error e)) :
    Spec Φ Ψ (connection body) log := by
  apply Prog.Local.attempt
  apply hbody.grows.mono
  intro l a ha
  obtain ⟨hpre, ha⟩ := ha
  cases a with
  | error e => exact spec_abort (hroll l) fun x r => herr l x r e hpre
  | ok b => exact Prog.Local.call (hroll l) fun x r _ => hok l b x r hpre (ha b rfl)

/-! ## Any number of clients -/

/-- The entry is a statement that writes the row of `k`. -/
def Targets (k : κ) (y : LogEntry key) : Prop := ∃ s, y.cmd = .stmt s ∧ s.target = some k

variable [DecidableEq κ] {ι : Type} [DecidableEq ι]

abbrev SqlStep : Pool ι (Database ι key) (Cmd key) Cmd.Res β →
    Event ι (Choice κ) (Cmd key) Cmd.Res →
    Pool ι (Database ι key) (Cmd key) Cmd.Res β → Prop :=
  Pool.Step Database.exec

variable {P₀ P P' : Pool ι (Database ι key) (Cmd key) Cmd.Res β} {k : κ} {i : ι}
  {e : Event ι (Choice κ) (Cmd key) Cmd.Res} {l l₁ l₂ : List (Event ι (Choice κ) (Cmd key) Cmd.Res)}

theorem effect_of_step (hst : SqlStep P e P') :
    Database.Effect e.thread { P.shared with clock := e.choice.clock } e.cmd P'.shared :=
  Database.effect_of_exec hst.exec_eq

theorem locked_of_run (h : Run SqlStep P l P') (hP : P.shared.Locked) : P'.shared.Locked := by
  refine h.invariant (I := fun P => P.shared.Locked) ?_ hP
  intro Q a Q' _ hst hQ
  have hQ' : Database.Locked { Q.shared with clock := a.choice.clock } := hQ
  exact hQ'.effect (effect_of_step hst)

/-- The changes of an open transaction stay as they are while the client does nothing. -/
theorem drafts_of_idle (h : Run SqlStep P l P') (hl : Pool.log i l = []) :
    P'.shared.drafts i = P.shared.drafts i := by
  refine h.eq_of_step (f := fun P => P.shared.drafts i) ?_
  intro Q a Q' ha hst
  apply (effect_of_step hst).drafts_of_ne
  rintro rfl
  have hmem := Pool.mem_log.mpr ⟨a, ha, rfl, rfl⟩
  rw [hl] at hmem
  cases hmem

/-- **A client has sent a statement for every row that it has changed.** -/
theorem sent_of_draft (hP₀ : ∀ i, P₀.shared.drafts i = []) (h : Run SqlStep P₀ l P)
    {c : Change key} (hc : c ∈ P.shared.drafts i) : ∃ y ∈ Pool.log i l, Targets c.rowKey y := by
  refine h.history (I := fun l P => ∀ c ∈ P.shared.drafts i, ∃ y ∈ Pool.log i l, Targets c.rowKey y)
    ?_ ?_ c hc
  · intro c hc
    rw [hP₀ i] at hc
    cases hc
  · intro l Q e Q' _ _ hst ih c hc
    have heff := effect_of_step hst
    by_cases hi : e.thread = i
    · subst hi
      rw [Pool.log_snoc_self]
      rcases (heff.drafts_self hc).2 with hc | ⟨s, hs, hmakes⟩
      · obtain ⟨y, hy, ht⟩ := ih c hc
        exact ⟨y, List.mem_append_left _ hy, ht⟩
      · exact ⟨e.toEntry, by simp, s, hs, Database.rowKey_of_makes hmakes⟩
    · rw [heff.drafts_of_ne hi] at hc
      obtain ⟨y, hy, ht⟩ := ih c hc
      exact ⟨y, by rwa [Pool.log_snoc_ne l hi], ht⟩

/-- A row that was inserted last is the last change of the open transaction. -/
theorem drafts_of_inserted {pre : List (LogEntry key)} {x : Choice κ} {a : α}
    (h : Run SqlStep P₀ l P) (hlog : Pool.log i l = pre ++ [⟨x, .stmt (.insert a), .ok ()⟩]) :
    ∃ cs, P.shared.drafts i = cs ++ [Change.put a] := by
  obtain ⟨l₁, e, l₂, rfl, het, he, -, hlog₂⟩ := Pool.split_log hlog
  obtain ⟨P₁, P₂, -, hst, hidle⟩ := h.at_label
  rw [drafts_of_idle hidle hlog₂]
  obtain ⟨⟨y, c, r⟩, j⟩ := e
  cases he
  cases het
  exact ⟨_, Database.drafts_of_insert hst.exec_eq⟩

/-- A step that commits no statement for a row leaves it as it is. -/
theorem get_of_step (hP₀ : ∀ i, P₀.shared.drafts i = []) (h : Run SqlStep P₀ l P)
    (hst : SqlStep P e P')
    (hk : e.cmd = .stmt .commit → ∀ y ∈ Pool.log e.thread l, ¬Targets k y) :
    P'.shared.rows.get k = P.shared.rows.get k := by
  have heff := effect_of_step hst
  by_cases hcommit : e.cmd = .stmt .commit
  · refine heff.get_of_clean fun c hc hkey => ?_
    obtain ⟨y, hy, ht⟩ := sent_of_draft hP₀ h hc
    exact hk hcommit y hy (hkey ▸ ht)
  · rw [heff.rows_eq hcommit]

/-- **A row is the same at two points of a run if nobody in between has committed a statement for
it.** -/
theorem get_of_quiet (hP₀ : ∀ i, P₀.shared.drafts i = []) (h₁ : Run SqlStep P₀ l₁ P)
    (h₂ : Run SqlStep P l₂ P')
    (hquiet : ∀ l₃ (a : Event _ _ (Cmd key) _) l₄, l₂ = l₃ ++ a :: l₄ → a.cmd = .stmt .commit →
      ∀ y ∈ Pool.log a.thread (l₁ ++ l₃), ¬Targets k y) :
    P'.shared.rows.get k = P.shared.rows.get k := by
  induction l₂ using List.reverseRecOn generalizing P' with
  | nil => rw [h₂.nil_inv]
  | append_singleton l₂ a ih =>
    obtain ⟨Q, hQ, hst⟩ := h₂.snoc_inv
    have hprev := ih hQ fun l₃ b l₄ hl => hquiet l₃ b (l₄ ++ [a]) (by rw [hl]; simp)
    have hlast := get_of_step hP₀ (h₁.append hQ) hst (hquiet l₂ a [] rfl)
    rw [hlast, hprev]

/-- The clock is at the choice of the last command, and never goes back. -/
theorem clock_of_step (hst : SqlStep P e P') :
    P.shared.clock ≤ e.choice.clock ∧ P'.shared.clock = e.choice.clock := by
  constructor
  · have hexec := hst.exec_eq
    unfold Database.exec at hexec
    split_ifs at hexec with hlt
    exact not_lt.mp hlt
  · exact (effect_of_step hst).clock_eq

theorem clock_le_of_run (h : Run SqlStep P l P') : P.shared.clock ≤ P'.shared.clock := by
  refine h.le (f := fun P => P.shared.clock) ?_
  intro Q a Q' _ hst
  obtain ⟨hle, heq⟩ := clock_of_step hst
  rw [heq]
  exact hle

/-- A client has read the clock no later than it is now. -/
theorem read_le_clock (h : Run SqlStep P₀ l P) {x : Choice κ} {t : Instant}
    (ht : ⟨x, .now, t⟩ ∈ Pool.log i l) : t ≤ P.shared.clock := by
  obtain ⟨e, he, -, het⟩ := Pool.mem_log.mp ht
  obtain ⟨l₁, l₂, rfl⟩ := List.append_of_mem he
  obtain ⟨P₁, P₂, -, hst, h₂⟩ := h.at_label
  have hclock := (clock_of_step hst).2
  have hread : t = e.choice.clock := by
    obtain ⟨⟨y, c, r⟩, j⟩ := e
    cases het
    have hexec := hst.exec_eq
    unfold Database.exec at hexec
    split_ifs at hexec
    exact (Prod.mk.inj (Option.some.inj hexec)).1.symm
  rw [hread, ← hclock]
  exact clock_le_of_run h₂

def ends : LogEntry key → Bool
  | ⟨_, .stmt .rollback, _⟩ => true
  | ⟨_, .stmt .commit, .ok _⟩ => true
  | _ => false

def writes (y : LogEntry key) : Bool :=
  match y.cmd with
  | .stmt s => s.target.isSome
  | .now => false

/-- Whether nothing is left to commit after one more entry, if `b` says so of the entries before. -/
def settledAfter (b : Bool) (y : LogEntry key) : Bool := ends y || (b && !writes y)

/-- The client has sent no write since its last transaction was over. -/
def settled (log : List (LogEntry key)) : Bool := log.foldl settledAfter true

omit [DecidableEq κ] in
theorem settled_snoc (log : List (LogEntry key)) (y : LogEntry key) :
    settled (log ++ [y]) = settledAfter (settled log) y := by
  simp [settled]

theorem drafts_of_ends (hst : SqlStep P e P') (h : ends e.toEntry = true) :
    P'.shared.drafts e.thread = [] := by
  obtain ⟨⟨x, c, r⟩, j⟩ := e
  unfold ends at h
  split at h
  · rename_i heq
    cases heq
    exact Database.drafts_of_rollback hst.exec_eq
  · rename_i heq
    cases heq
    exact (Database.eq_of_commit hst.exec_eq).2
  · cases h

/-- **A client that has sent no write since its last transaction was over has no change open.** -/
theorem drafts_of_settled (hP₀ : ∀ i, P₀.shared.drafts i = []) (h : Run SqlStep P₀ l P)
    (hs : settled (Pool.log i l) = true) : P.shared.drafts i = [] := by
  refine h.history (I := fun l P => settled (Pool.log i l) = true → P.shared.drafts i = [])
    (fun _ => hP₀ i) ?_ hs
  intro l Q e Q' _ _ hst ih hs
  have heff := effect_of_step hst
  by_cases hi : e.thread = i
  · subst hi
    rw [Pool.log_snoc_self, settled_snoc] at hs
    rw [settledAfter, Bool.or_eq_true, Bool.and_eq_true, Bool.not_eq_true'] at hs
    rcases hs with hends | ⟨hsettled, hnot⟩
    · exact drafts_of_ends hst hends
    · rw [List.eq_nil_iff_forall_not_mem]
      intro c hc
      rcases (heff.drafts_self hc).2 with hold | ⟨s, hcmd, hmakes⟩
      · rw [ih hsettled] at hold
        cases hold
      · have hwrites : writes e.toEntry = true := by
          simp [writes, hcmd, Database.rowKey_of_makes hmakes]
        cases hnot.symm.trans hwrites
  · rw [Pool.log_snoc_ne l hi] at hs
    rw [heff.drafts_of_ne hi, ih hs]

end Sql

end Varco
