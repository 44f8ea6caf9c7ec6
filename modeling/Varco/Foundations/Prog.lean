import Varco.Foundations.Run

/-!
# Programs that issue commands

A concurrent client is a program that issues one command at a time and continues with the answer:
`Prog C R α`, for commands `C`, the answers `R c` to a command and results `α`. A command is what is
atomic; between two commands anything else may happen. Programs that may raise are `ExceptT ε` over
it.

What is said about a program without knowing what it runs beside is said about its log, the commands
it issued with their answers: `Prog.Local A Φ Ψ p log` is that, for all answers that `A` allows,
every command that `p` issues satisfies `Φ` of the log before it, and every result `Ψ` of the whole
log. The rules follow the program: `Local.bind` for a sequence, `Local.bindExcept` for a sequence
that may raise, and `Local.after` carries it along an execution.

`run` executes one program on its own, for every sequence of choices that the environment makes.
-/

namespace Varco

/-- Programs with commands `C`, answers `R` and results `α`. -/
inductive Prog (C : Type) (R : C → Type) (α : Type) : Type
  | ret (a : α)
  | cmd (c : C) (k : R c → Prog C R α)

/-- A command with its answer, and the choice `q` that the environment made. -/
structure Entry (Q C : Type) (R : C → Type) where
  choice : Q
  cmd : C
  res : R cmd

namespace Prog

variable {Q C : Type} {R : C → Type} {α β ε : Type}

def bind : Prog C R α → (α → Prog C R β) → Prog C R β
  | ret a, f => f a
  | cmd c k, f => cmd c fun r => bind (k r) f

instance : Monad (Prog C R) where
  pure := ret
  bind := bind

def call (c : C) : ExceptT ε (Prog C R) (R c) := ExceptT.mk (.cmd c fun r => .ret (.ok r))

def await (c : C) (g : R c → Except ε α) : ExceptT ε (Prog C R) α :=
  ExceptT.mk (.cmd c fun r => .ret (g r))

/-- What a `try` body does, with what it raised as a value. -/
def attempt (p : ExceptT ε (Prog C R) α) : ExceptT ε (Prog C R) (Except ε α) :=
  ExceptT.mk (p.run >>= fun r => pure (.ok r))

/-- The program `q` that is left of `p` after the commands and answers `l`. -/
inductive After : Prog C R α → List (Entry Q C R) → Prog C R α → Prop
  | nil (p : Prog C R α) : After p [] p
  | cons {c : C} {k : R c → Prog C R α} {q : Prog C R α} {l : List (Entry Q C R)} (x : Q)
      (r : R c) :
      After (k r) l q → After (cmd c k) (⟨x, c, r⟩ :: l) q

/-! ## Reasoning about the log -/

/-- As long as the answers are as `A` says, every command issued satisfies `Φ` of the log before it,
every result `Ψ` of the log. -/
def Local (A : Q → (c : C) → R c → Prop) (Φ : List (Entry Q C R) → C → Prop)
    (Ψ : List (Entry Q C R) → α → Prop) :
    Prog C R α → List (Entry Q C R) → Prop
  | ret a, log => Ψ log a
  | cmd c k, log =>
    Φ log c ∧ ∀ (x : Q) (r : R c), A x c r → Local A Φ Ψ (k r) (log ++ [⟨x, c, r⟩])

variable {A : Q → (c : C) → R c → Prop} {Φ : List (Entry Q C R) → C → Prop}
  {log : List (Entry Q C R)}

theorem Local.mono {Ψ Ψ' : List (Entry Q C R) → α → Prop} {p : Prog C R α}
    (h : Local A Φ Ψ p log) (hΨ : ∀ l a, Ψ l a → Ψ' l a) : Local A Φ Ψ' p log := by
  induction p generalizing log with
  | ret a => exact hΨ log a h
  | cmd c k ih => exact ⟨h.1, fun x r hr => ih r (h.2 x r hr)⟩

variable {Ψ : List (Entry Q C R) → α → Prop}

/-- Where every command and every result is allowed, every program is. -/
theorem Local.of_forall (hΦ : ∀ l c, Φ l c)
    (hΨ : ∀ l a, Ψ l a) (p : Prog C R α) (log : List (Entry Q C R)) : Local A Φ Ψ p log := by
  induction p generalizing log with
  | ret a => exact hΨ log a
  | cmd c k ih => exact ⟨hΦ log c, fun x r _ => ih r _⟩

theorem Local.bind {Ψ : List (Entry Q C R) → β → Prop} {p : Prog C R α} {f : α → Prog C R β}
    (h : Local A Φ (fun l a => Local A Φ Ψ (f a) l) p log) : Local A Φ Ψ (p >>= f) log := by
  induction p generalizing log with
  | ret a => exact h
  | cmd c k ih => exact ⟨h.1, fun x r hr => ih r (h.2 x r hr)⟩

variable {p : ExceptT ε (Prog C R) α} {f : α → ExceptT ε (Prog C R) β}

/-- A sequence of programs that may raise: the exception skips the rest. -/
theorem Local.bindExcept {Ψ : List (Entry Q C R) → Except ε β → Prop}
    (h : Local A Φ (fun l a => match a with
      | .ok a => Local A Φ Ψ (f a) l
      | .error e => Ψ l (.error e)) (p : Prog C R (Except ε α)) log) :
    Local A Φ Ψ (p >>= f : ExceptT ε (Prog C R) β) log := by
  refine Local.bind (Local.mono h ?_)
  intro l a ha
  cases a with
  | ok a => exact ha
  | error e => exact ha

theorem Local.pure_ok {Ψ : List (Entry Q C R) → Except ε α → Prop} {a : α} (h : Ψ log (.ok a)) :
    Local A Φ Ψ (pure a : ExceptT ε (Prog C R) α) log := h

theorem Local.throw {Ψ : List (Entry Q C R) → Except ε α → Prop} {e : ε} (h : Ψ log (.error e)) :
    Local A Φ Ψ (throw e : ExceptT ε (Prog C R) α) log := h

theorem Local.call {c : C} {f : R c → ExceptT ε (Prog C R) β}
    {Ψ : List (Entry Q C R) → Except ε β → Prop} (hΦ : Φ log c)
    (h : ∀ x r, A x c r → Local A Φ Ψ (f r) (log ++ [⟨x, c, r⟩])) :
    Local A Φ Ψ (call c >>= f : ExceptT ε (Prog C R) β) log :=
  ⟨hΦ, h⟩

theorem Local.await {c : C} {g : R c → Except ε α} {Ψ : List (Entry Q C R) → Except ε α → Prop}
    (hΦ : Φ log c) (h : ∀ x r, A x c r → Ψ (log ++ [⟨x, c, r⟩]) (g r)) :
    Local A Φ Ψ (await c g) log :=
  ⟨hΦ, h⟩

/-- An await that may raise: what is left after its answer, or what holds of the exception. -/
theorem Local.bindAwait {c : C} {g : R c → Except ε α}
    {Ψ : List (Entry Q C R) → Except ε β → Prop} (hΦ : Φ log c)
    (hok : ∀ x r a, A x c r → g r = .ok a → Local A Φ Ψ (f a) (log ++ [⟨x, c, r⟩]))
    (herr : ∀ x r e, g r = .error e → Ψ (log ++ [⟨x, c, r⟩]) (.error e)) :
    Local A Φ Ψ (Prog.await c g >>= f : ExceptT ε (Prog C R) β) log := by
  refine Local.bindExcept (Local.await hΦ fun x r hr => ?_)
  cases hg : g r with
  | ok a => exact hok x r a hr hg
  | error e => exact herr x r e hg

theorem Local.attempt {f : Except ε α → ExceptT ε (Prog C R) β}
    {Ψ : List (Entry Q C R) → Except ε β → Prop}
    (h : Local A Φ (fun l r => Local A Φ Ψ (f r) l) (p : Prog C R (Except ε α)) log) :
    Local A Φ Ψ (attempt p >>= f : ExceptT ε (Prog C R) β) log :=
  Local.bindExcept (Local.bind h)

theorem Local.grows {p : Prog C R α}
    (h : Local A Φ Ψ p log) : Local A Φ (fun l a => log <+: l ∧ Ψ l a) p log := by
  induction p generalizing log with
  | ret a => exact ⟨List.prefix_refl _, h⟩
  | cmd c k ih =>
    refine ⟨h.1, fun x r hr => (ih r (h.2 x r hr)).mono fun l a hl => ?_⟩
    exact ⟨(List.prefix_append ..).trans hl.1, hl.2⟩

/-- **What is left of a program behaves as the program does.** -/
theorem Local.after {p q : Prog C R α}
    {l : List (Entry Q C R)} (h : After p l q) (hA : ∀ e ∈ l, A e.choice e.cmd e.res)
    (hp : Local A Φ Ψ p log) : Local A Φ Ψ q (log ++ l) := by
  induction h generalizing log with
  | nil p => simpa using hp
  | cons x r _ ih =>
    have hr := hA _ List.mem_cons_self
    have hq := ih (fun e he => hA e (List.mem_cons_of_mem _ he)) (hp.2 x r hr)
    rwa [List.append_assoc, List.singleton_append] at hq

/-! ## One program on its own -/

variable {σ : Type}

/-- Run a program against the state `s`: the log, the result and the state after it. The environment
makes the choices `xs`, one for each command. -/
def run (exec : Q → (c : C) → σ → R c × σ) :
    Prog C R α → σ → (ℕ → Q) → List (Entry Q C R) × α × σ
  | ret a, s, _ => ([], a, s)
  | cmd c k, s, xs =>
    let out := exec (xs 0) c s
    let rest := run exec (k out.1) out.2 fun n => xs (n + 1)
    (⟨xs 0, c, out.1⟩ :: rest.1, rest.2)

variable {exec : Q → (c : C) → σ → R c × σ}

theorem run_steps (p : Prog C R α) (s : σ) (xs : ℕ → Q) :
    Run (fun s (e : Entry Q C R) s' => exec e.choice e.cmd s = (e.res, s')) s (run exec p s xs).1
      (run exec p s xs).2.2 := by
  induction p generalizing s xs with
  | ret a => exact .nil s
  | cmd c k ih => exact .cons rfl (ih _ _ _)

/-- **The result satisfies what was shown of the program.** -/
theorem Local.of_run {p : Prog C R α}
    (hA : ∀ x c s, A x c (exec x c s).1) (hp : Local A Φ Ψ p log) (s : σ) (xs : ℕ → Q) :
    Ψ (log ++ (run exec p s xs).1) (run exec p s xs).2.1 := by
  induction p generalizing s xs log with
  | ret a =>
    rw [run, List.append_nil]
    exact hp
  | cmd c k ih =>
    have hr := ih _ (hp.2 (xs 0) _ (hA _ _ s)) (exec (xs 0) c s).2 fun n => xs (n + 1)
    rwa [List.append_assoc, List.singleton_append] at hr

/-! ## One program that is not interrupted -/

variable (step : (c : C) → σ → R c × σ)

/-- Run a program to its end, where the state determines every answer. -/
def eval : Prog C R α → σ → α × σ
  | ret a, s => (a, s)
  | cmd c k, s => eval (k (step c s).1) (step c s).2

variable {step} {s s' : σ}

theorem eval_bind (p : Prog C R α) (f : α → Prog C R β) (s : σ) :
    eval step (p >>= f) s = eval step (f (eval step p s).1) (eval step p s).2 := by
  induction p generalizing s with
  | ret a => rfl
  | cmd c k ih => exact ih _ _

theorem eval_mapExcept (f : α → β) (p : ExceptT ε (Prog C R) α) (s : σ) :
    eval step (f <$> p).run s = (f <$> (eval step p.run s).1, (eval step p.run s).2) := by
  change eval step (p.run >>= _) s = _
  rw [eval_bind]
  cases (eval step p.run s).1 <;> rfl

theorem eval_bindExcept_ok {a : α} (h : eval step p.run s = (.ok a, s')) :
    eval step (p >>= f).run s = eval step (f a).run s' := by
  change eval step (p.run >>= _) s = _
  rw [eval_bind, h]
  rfl

theorem eval_bindExcept_error {e : ε} (h : eval step p.run s = (.error e, s')) :
    eval step (p >>= f).run s = (.error e, s') := by
  change eval step (p.run >>= _) s = _
  rw [eval_bind, h]
  rfl

end Prog

end Varco
