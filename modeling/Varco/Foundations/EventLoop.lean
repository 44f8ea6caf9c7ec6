import Varco.Foundations.Pool

/-!
# Cooperative tasks

An event loop runs one task at a time, and a task keeps running until it suspends: nothing happens
between two commands that complete at once. `now c s` is the answer to a command that completes at
once in the state `s`, and `none` if the task suspends at it; `drive` runs a program until it
suspends or returns.

A suspended task is woken with the answer to the command it waits at, or a cancellation is thrown
into it there: `wake w c s` is that answer, and `none` if the task cannot be woken so. A step of the
loop wakes one task and drives it on.
-/

namespace Varco

/-- What a task is woken with: the environment lets it go on, or cancels it. -/
inductive Wake (Q : Type)
  | resume (x : Q)
  | cancel

/-- A task is woken. -/
structure LoopEvent (ι Q : Type) where
  task : ι
  wake : Wake Q

namespace EventLoop

variable {ι σ Q C : Type} {R : C → Type} {α β ε : Type}

section

variable (now : (c : C) → σ → Option (R c × σ))

def drive : Prog C R α → σ → Prog C R α × σ
  | .ret a, s => (.ret a, s)
  | .cmd c k, s =>
    match now c s with
    | none => (.cmd c k, s)
    | some (r, s') => drive (k r) s'

variable {now} {s s' : σ}

@[simp] theorem drive_ret (a : α) (s : σ) : drive now (.ret a : Prog C R α) s = (.ret a, s) := rfl

theorem drive_cmd_some {c : C} {k : R c → Prog C R α} {r : R c} (h : now c s = some (r, s')) :
    drive now (.cmd c k) s = drive now (k r) s' := by
  simp [drive, h]

theorem drive_cmd_none {c : C} {k : R c → Prog C R α} (h : now c s = none) :
    drive now (.cmd c k) s = (.cmd c k, s) := by
  simp [drive, h]

/-- **A sequence** whose first part returns goes on with the second. -/
theorem drive_bind_ret {p : Prog C R α} {f : α → Prog C R β} {a : α}
    (h : drive now p s = (.ret a, s')) : drive now (p >>= f) s = drive now (f a) s' := by
  induction p generalizing s with
  | ret b =>
    cases h
    rfl
  | cmd c k ih =>
    change drive now (.cmd c fun r => k r >>= f) s = _
    cases hnow : now c s with
    | none =>
      rw [drive_cmd_none hnow] at h
      cases h
    | some out =>
      rw [drive_cmd_some hnow] at h ⊢
      exact ih _ h

/-- **A sequence** whose first part suspends is suspended there. -/
theorem drive_bind_cmd {p : Prog C R α} {f : α → Prog C R β} {c : C} {k : R c → Prog C R α}
    (h : drive now p s = (.cmd c k, s')) :
    drive now (p >>= f) s = (.cmd c fun r => k r >>= f, s') := by
  induction p generalizing s with
  | ret b => cases h
  | cmd c' k' ih =>
    change drive now (.cmd c' fun r => k' r >>= f) s = _
    cases hnow : now c' s with
    | none =>
      rw [drive_cmd_none hnow] at h ⊢
      cases h
      rfl
    | some out =>
      rw [drive_cmd_some hnow] at h ⊢
      exact ih _ h

theorem drive_bindExcept_ok {p : ExceptT ε (Prog C R) α} {f : α → ExceptT ε (Prog C R) β} {a : α}
    (h : drive now p.run s = (.ret (.ok a), s')) :
    drive now (p >>= f).run s = drive now (f a).run s' :=
  drive_bind_ret h

theorem drive_await {c : C} {g : R c → Except ε α} {r : R c} (h : now c s = some (r, s')) :
    drive now (Prog.await c g).run s = (.ret (g r), s') :=
  drive_cmd_some h

theorem drive_attempt {p : ExceptT ε (Prog C R) α} {r : Except ε α}
    (h : drive now p.run s = (.ret r, s')) :
    drive now (Prog.attempt p).run s = (.ret (.ok r), s') :=
  drive_bind_ret h

/-- Where more completes at once, a program is driven through where it was driven to. -/
theorem drive_drive {now' : (c : C) → σ → Option (R c × σ)}
    (h : ∀ c s r, now c s = some r → now' c s = some r) (p : Prog C R α) (s : σ) :
    drive now' (drive now p s).1 (drive now p s).2 = drive now' p s := by
  induction p generalizing s with
  | ret a => rfl
  | cmd c k ih =>
    cases hnow : now c s with
    | none => rw [drive_cmd_none hnow]
    | some out =>
      rw [drive_cmd_some hnow, drive_cmd_some (h c s out hnow)]
      exact ih _ _

end

variable [DecidableEq ι] (now : (c : C) → σ → Option (R c × σ))
  (wake : Wake Q → (c : C) → σ → Option (R c × σ))

def advance (P : Pool ι σ C R α) (e : LoopEvent ι Q) : Option (Pool ι σ C R α) :=
  match P.prog e.task with
  | .ret _ => none
  | .cmd c k =>
    (wake e.wake c P.shared).map fun (r, s) =>
      ⟨(drive now (k r) s).2, Function.update P.prog e.task (drive now (k r) s).1⟩

def Step (P : Pool ι σ C R α) (e : LoopEvent ι Q) (P' : Pool ι σ C R α) : Prop :=
  advance now wake P e = some P'

variable {now wake} {P P' : Pool ι σ C R α} {e : LoopEvent ι Q}

theorem Step.det {P₁ P₂ : Pool ι σ C R α} (h₁ : Step now wake P e P₁) (h₂ : Step now wake P e P₂) :
    P₁ = P₂ :=
  Option.some.inj (h₁.symm.trans h₂)

/-- **What a step is**: the task waits at a command, is woken with an answer and driven on. -/
theorem Step.inv (h : Step now wake P e P') :
    ∃ c k r s, P.prog e.task = .cmd c k ∧ wake e.wake c P.shared = some (r, s) ∧
      P' = ⟨(drive now (k r) s).2, Function.update P.prog e.task (drive now (k r) s).1⟩ := by
  unfold Step advance at h
  split at h
  · cases h
  · rename_i c k hk
    obtain ⟨⟨r, s⟩, hwake, rfl⟩ := Option.map_eq_some_iff.mp h
    exact ⟨c, k, r, s, hk, hwake, rfl⟩

theorem step_of_wake {c : C} {k : R c → Prog C R α} {r : R c} {s : σ}
    (hk : P.prog e.task = .cmd c k) (hwake : wake e.wake c P.shared = some (r, s)) :
    Step now wake P e
      ⟨(drive now (k r) s).2, Function.update P.prog e.task (drive now (k r) s).1⟩ := by
  unfold Step advance
  rw [hk]
  simp [hwake]

/-! ## A task on its own -/

/-- What completes for a task that runs on its own and is woken with `x` whenever it suspends. -/
def alone (now : (c : C) → σ → Option (R c × σ))
    (wake : Wake Q → (c : C) → σ → Option (R c × σ)) (x : Q) (c : C) (s : σ) : Option (R c × σ) :=
  (now c s).or (wake (.resume x) c s)

omit [DecidableEq ι] in
/-- A task on its own is driven to where it suspends, and on. -/
theorem drive_alone (x : Q) (p : Prog C R α) (s : σ) :
    drive (alone now wake x) (drive now p s).1 (drive now p s).2 =
      drive (alone now wake x) p s := by
  refine drive_drive (fun c s r h => ?_) p s
  simp [alone, h]

/-! ## Schedules -/

def advanceAll (now : (c : C) → σ → Option (R c × σ))
    (wake : Wake Q → (c : C) → σ → Option (R c × σ)) :
    Pool ι σ C R α → List (LoopEvent ι Q) → Option (Pool ι σ C R α)
  | P, [] => some P
  | P, e :: l => (advance now wake P e).bind fun P₁ => advanceAll now wake P₁ l

theorem run_of_advanceAll {l : List (LoopEvent ι Q)} (h : advanceAll now wake P l = some P') :
    Run (Step now wake) P l P' := by
  induction l generalizing P with
  | nil =>
    cases h
    exact .nil _
  | cons e l ih =>
    obtain ⟨P₁, h₁, h⟩ := Option.bind_eq_some_iff.mp h
    exact .cons h₁ (ih h)

end EventLoop

end Varco
