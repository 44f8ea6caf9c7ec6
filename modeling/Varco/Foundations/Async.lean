import Varco.Foundations.Prog
import Varco.Foundations.Python

/-!
# Awaits that may be interrupted

What every await of a coroutine shares: something may be raised at it, before the awaited call has
taken effect or after it, and `except Exception` catches all of that but a cancellation.
-/

namespace Varco

variable {C : Type} {R : C → Type} {σ α β : Type}

/-- An await of a call that would answer `r` and leave `s'` behind. -/
def Interrupt.await (interrupt : Interrupt) (raised : Exc) (s : σ) (r : Except Exc α) (s' : σ) :
    Except Exc α × σ :=
  match interrupt with
  | .none => (r, s')
  | .before => (.error raised, s)
  | .after => (.error raised, s')

/-- The call is carried out unless something is raised before it. -/
theorem Interrupt.await_snd (interrupt : Interrupt) (raised : Exc) (s : σ) (r : Except Exc α)
    (s' : σ) : (interrupt.await raised s r s').2 = if interrupt = .before then s else s' := by
  cases interrupt <;> rfl

/-- An answer is the answer of a call that was carried out. -/
theorem Interrupt.await_eq_ok {interrupt : Interrupt} {raised : Exc} {s s' : σ} {r : Except Exc α}
    {a : α} (h : (interrupt.await raised s r s').1 = .ok a) : interrupt = .none ∧ r = .ok a := by
  cases interrupt with
  | none => exact ⟨rfl, h⟩
  | before => cases h
  | after => cases h

namespace Prog

variable {Q : Type}

/-- `try: await p except Exception: ...`, where what was raised is only logged. -/
def suppress (p : ExceptT Exc (Prog C R) Unit) : ExceptT Exc (Prog C R) Unit := do
  match ← attempt p with
  | .error .cancelled => throw .cancelled
  | .error (.error _) => pure ()
  | .ok () => pure ()

variable {A : Q → (c : C) → R c → Prop} {Φ : List (Entry Q C R) → C → Prop}
  {log : List (Entry Q C R)}

/-- What holds of the log after `p` holds of it after `suppress p`. -/
theorem Local.suppress {Θ : List (Entry Q C R) → Prop}
    {p : ExceptT Exc (Prog C R) Unit} (h : Local A Φ (fun l _ => Θ l) p.run log) :
    Local A Φ (fun l _ => Θ l) (Prog.suppress p).run log := by
  refine Local.attempt (h.mono fun l r hl => ?_)
  match r with
  | .error .cancelled => exact hl
  | .error (.error _) => exact hl
  | .ok () => exact hl

end Prog

end Varco
