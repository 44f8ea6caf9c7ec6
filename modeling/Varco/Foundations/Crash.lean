import Varco.Foundations.Prog

/-!
# Programs that are cut off and started again

A process runs a program over a state that outlives it. It may stop between any two commands, and a
program may be started again on the state that was left. `Restarts` are the configurations that come
about so, each with the log of all commands so far.

What is shown of such a process is shown program by program: `Prog.Safe I Ψ p log s` is that `I`
holds of the log and the state before every command of `p`, wherever it is cut off, and `Ψ` of every
result. If `I` holds before a program is started, and every program is safe from there, then `I`
holds in every configuration (`Restarts.invariant`).
-/

namespace Varco

variable {Q C : Type} {R : C → Type} {σ α β ε A : Type}

namespace Prog

/-- `I` holds of the log and the state wherever the program is cut off, and `Ψ` of its result. -/
def Safe (exec : Q → (c : C) → σ → R c × σ) (I : List (Entry Q C R) → σ → Prop)
    (Ψ : List (Entry Q C R) → α → σ → Prop) :
    Prog C R α → List (Entry Q C R) → σ → Prop
  | ret a, log, s => I log s ∧ Ψ log a s
  | cmd c k, log, s => I log s ∧ ∀ x,
      Safe exec I Ψ (k (exec x c s).1) (log ++ [⟨x, c, (exec x c s).1⟩]) (exec x c s).2

variable {exec : Q → (c : C) → σ → R c × σ}
  {I : List (Entry Q C R) → σ → Prop} {log : List (Entry Q C R)} {s : σ}

namespace Safe

theorem holds {Ψ : List (Entry Q C R) → α → σ → Prop} {p : Prog C R α}
    (h : Safe exec I Ψ p log s) : I log s := by
  cases p with
  | ret a => exact h.1
  | cmd c k => exact h.1

theorem mono {Ψ Ψ' : List (Entry Q C R) → α → σ → Prop} {p : Prog C R α}
    (h : Safe exec I Ψ p log s) (hΨ : ∀ l a t, I l t → Ψ l a t → Ψ' l a t) :
    Safe exec I Ψ' p log s := by
  induction p generalizing log s with
  | ret a => exact ⟨h.1, hΨ log a s h.1 h.2⟩
  | cmd c k ih => exact ⟨h.1, fun x => ih _ (h.2 x)⟩

theorem bind {Ψ : List (Entry Q C R) → β → σ → Prop} {p : Prog C R α} {f : α → Prog C R β}
    (h : Safe exec I (fun l a t => Safe exec I Ψ (f a) l t) p log s) :
    Safe exec I Ψ (p >>= f) log s := by
  induction p generalizing log s with
  | ret a => exact h.2
  | cmd c k ih => exact ⟨h.1, fun x => ih _ (h.2 x)⟩

/-- A sequence of programs that may raise: the exception skips the rest. -/
theorem bindExcept {Ψ : List (Entry Q C R) → Except ε β → σ → Prop}
    {p : ExceptT ε (Prog C R) α} {f : α → ExceptT ε (Prog C R) β}
    (h : Safe exec I (fun l a t => match a with
      | .ok a => Safe exec I Ψ (f a) l t
      | .error e => Ψ l (.error e) t) (p : Prog C R (Except ε α)) log s) :
    Safe exec I Ψ (p >>= f : ExceptT ε (Prog C R) β) log s := by
  refine Safe.bind (h.mono ?_)
  intro l a t hI ha
  cases a with
  | ok a => exact ha
  | error e => exact ⟨hI, ha⟩

/-- The result of the program on its own, without a stop. -/
theorem of_run {Ψ : List (Entry Q C R) → α → σ → Prop} {p : Prog C R α}
    (h : Safe exec I Ψ p log s) (xs : ℕ → Q) :
    Ψ (log ++ (p.run exec s xs).1) (p.run exec s xs).2.1 (p.run exec s xs).2.2 := by
  induction p generalizing s xs log with
  | ret a =>
    rw [run, List.append_nil]
    exact h.2
  | cmd c k ih =>
    have hrest := ih _ (h.2 (xs 0)) fun n => xs (n + 1)
    rwa [List.append_assoc, List.singleton_append] at hrest

end Safe

/-- Run a program for `n` commands: the log, the state after it, and what is left of the program. -/
def cut (exec : Q → (c : C) → σ → R c × σ) :
    ℕ → Prog C R α → σ → (ℕ → Q) → List (Entry Q C R) × σ × Prog C R α
  | 0, p, s, _ => ([], s, p)
  | _ + 1, ret a, s, _ => ([], s, ret a)
  | n + 1, cmd c k, s, xs =>
    let out := exec (xs 0) c s
    let rest := cut exec n (k out.1) out.2 fun m => xs (m + 1)
    (⟨xs 0, c, out.1⟩ :: rest.1, rest.2)

end Prog

/-- The configurations of a process: the log of all that was done, the state, and what is left of
the program that runs, if one does. It starts with `first`, and after it has stopped, at whatever
point, goes on with any of the programs `boot a`. -/
inductive Restarts (exec : Q → (c : C) → σ → R c × σ) (first : Prog C R α)
    (boot : A → Prog C R α) (s₀ : σ) :
    List (Entry Q C R) → σ → Option (Prog C R α) → Prop
  | start : Restarts exec first boot s₀ [] s₀ (some first)
  | cmd {log : List (Entry Q C R)} {s : σ} {c : C} {k : R c → Prog C R α} (x : Q) :
      Restarts exec first boot s₀ log s (some (.cmd c k)) →
      Restarts exec first boot s₀ (log ++ [⟨x, c, (exec x c s).1⟩]) (exec x c s).2
        (some (k (exec x c s).1))
  | stop {log : List (Entry Q C R)} {s : σ} {p : Prog C R α} :
      Restarts exec first boot s₀ log s (some p) → Restarts exec first boot s₀ log s none
  | boot {log : List (Entry Q C R)} {s : σ} (a : A) :
      Restarts exec first boot s₀ log s none →
      Restarts exec first boot s₀ log s (some (boot a))

namespace Restarts

variable {exec : Q → (c : C) → σ → R c × σ}
  {first : Prog C R α} {boot : A → Prog C R α} {s₀ s : σ} {log : List (Entry Q C R)}
  {p : Option (Prog C R α)} {I : List (Entry Q C R) → σ → Prop}

/-- **The invariant rule**: what every program keeps wherever it is cut off holds in every
configuration. -/
theorem invariant (h : Restarts exec first boot s₀ log s p)
    (hfirst : first.Safe exec I (fun _ _ _ => True) [] s₀)
    (hboot : ∀ a l t, I l t → (boot a).Safe exec I (fun _ _ _ => True) l t) : I log s := by
  have hsafe : I log s ∧ ∀ q, p = some q → q.Safe exec I (fun _ _ _ => True) log s := by
    induction h with
    | start =>
      refine ⟨hfirst.holds, ?_⟩
      rintro q ⟨⟩
      exact hfirst
    | cmd x _ ih =>
      have hstep := (ih.2 _ rfl).2 x
      refine ⟨hstep.holds, ?_⟩
      rintro q ⟨⟩
      exact hstep
    | stop _ ih => exact ⟨ih.1, fun q hq => by cases hq⟩
    | boot a _ ih =>
      refine ⟨ih.1, ?_⟩
      rintro q ⟨⟩
      exact hboot a _ _ ih.1
  exact hsafe.1

/-- A process goes on for `n` commands. -/
theorem cut {q : Prog C R α} (h : Restarts exec first boot s₀ log s (some q)) (n : ℕ)
    (xs : ℕ → Q) :
    Restarts exec first boot s₀ (log ++ (q.cut exec n s xs).1) (q.cut exec n s xs).2.1
      (some (q.cut exec n s xs).2.2) := by
  induction n generalizing q s log xs with
  | zero =>
    rw [Prog.cut, List.append_nil]
    exact h
  | succ n ih =>
    cases q with
    | ret a =>
      rw [Prog.cut, List.append_nil]
      exact h
    | cmd c k =>
      have hrest := ih (h.cmd (xs 0)) fun m => xs (m + 1)
      rwa [List.append_assoc, List.singleton_append] at hrest

end Restarts

end Varco
