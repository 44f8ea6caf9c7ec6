import Mathlib.Data.List.Induction

/-!
# Machines that answer

A machine is a function `exec i s`: the answer to the input `i` in the state `s`, and the state
after it. `outputs` are the answers to a list of inputs, `final` is the state after it.

Two machines are compared by a relation between their states. If the answers agree in related states
and the states stay related, for the inputs that `ok` allows, then the machines answer alike on
every list of inputs that is allowed along the way (`outputs_eq`).
-/

namespace Varco

namespace Machine

variable {I A σ τ : Type}

def final (exec : I → σ → A × σ) (s : σ) (is : List I) : σ := is.foldl (fun s i => (exec i s).2) s

def outputs (exec : I → σ → A × σ) : σ → List I → List A
  | _, [] => []
  | s, i :: is => (exec i s).1 :: outputs exec (exec i s).2 is

def Along (exec : I → σ → A × σ) (ok : σ → I → Prop) (s : σ) (is : List I) : Prop :=
  ∀ is₁ i is₂, is = is₁ ++ i :: is₂ → ok (final exec s is₁) i

variable {exec : I → σ → A × σ} {exec' : I → τ → A × τ} {ok : τ → I → Prop} {s : σ} {t : τ}
  {is is₁ is₂ : List I} {i : I}

@[simp] theorem final_nil (exec : I → σ → A × σ) (s : σ) : final exec s [] = s := rfl

@[simp] theorem final_cons (exec : I → σ → A × σ) (s : σ) (i : I) (is : List I) :
    final exec s (i :: is) = final exec (exec i s).2 is := rfl

@[simp] theorem final_append (exec : I → σ → A × σ) (s : σ) (is₁ is₂ : List I) :
    final exec s (is₁ ++ is₂) = final exec (final exec s is₁) is₂ := by
  simp [final]

theorem Along.head (h : Along exec' ok t (i :: is)) : ok t i := h [] i is rfl

theorem Along.tail (h : Along exec' ok t (i :: is)) : Along exec' ok (exec' i t).2 is := by
  intro is₁ j is₂ he
  exact h (i :: is₁) j is₂ (by rw [he, List.cons_append])

theorem Along.left (h : Along exec' ok t (is₁ ++ is₂)) : Along exec' ok t is₁ := by
  intro is₃ j is₄ he
  apply h is₃ j (is₄ ++ is₂)
  rw [he, List.append_assoc, List.cons_append]

theorem Along.nil : Along exec' ok t [] := by
  intro is₁ j is₂ he
  cases is₁ <;> cases he

theorem Along.cons (h : ok t i) (hs : Along exec' ok (exec' i t).2 is) :
    Along exec' ok t (i :: is) := by
  intro is₁ j is₂ he
  cases is₁ with
  | nil =>
    cases he
    exact h
  | cons k is₁ =>
    cases he
    exact hs is₁ j is₂ rfl

section

variable {R : σ → τ → Prop}
  (hstep : ∀ s t i, R s t → ok t i → (exec i s).1 = (exec' i t).1 ∧ R (exec i s).2 (exec' i t).2)
include hstep

theorem final_rel (h : R s t) (hok : Along exec' ok t is) :
    R (final exec s is) (final exec' t is) := by
  induction is generalizing s t with
  | nil => exact h
  | cons i is ih => exact ih (hstep s t i h hok.head).2 hok.tail

/-- **The machines answer alike.** -/
theorem outputs_eq (h : R s t) (hok : Along exec' ok t is) :
    outputs exec s is = outputs exec' t is := by
  induction is generalizing s t with
  | nil => rfl
  | cons i is ih =>
    obtain ⟨hans, hrel⟩ := hstep s t i h hok.head
    simp only [outputs]
    rw [hans, ih hrel hok.tail]

end

end Machine

end Varco
