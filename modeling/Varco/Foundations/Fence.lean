import Mathlib.Order.WithBot
import Varco.Foundations.Run

/-!
# Fencing tokens

A fence guards a resource by a token kept with it. Taking the resource over grants a token above
the one kept there, and a guarded access names the token it was granted and goes through only while
it is still the one kept. What a single step has to do is the structure `Fence`; what follows for
whole runs is that the tokens of successive grants increase (`Fence.grant_lt_grant`) and that a
holder whose token has been passed never gets through again (`Fence.not_use_of_lt`).

`⊥` is the token of a resource that does not exist.
-/

namespace Varco

variable {σ α τ : Type*} [LinearOrder τ]

/-- A token kept by the states of a system, for the steps whose labels satisfy `ok`. -/
structure Fence (step : σ → α → σ → Prop) (ok : α → Prop) (τ : Type*) [LinearOrder τ] where
  /-- The token kept in a state. -/
  token : σ → WithBot τ
  /-- The token that a label hands out. -/
  grant : α → Option τ
  /-- The label is an access that got through with this token. -/
  use : α → τ → Prop
  token_le : ∀ {s a s'}, ok a → step s a s' → token s ≤ token s'
  token_lt_grant : ∀ {s a s' t}, ok a → step s a s' → grant a = some t → token s < t
  grant_le_token : ∀ {s a s' t}, ok a → step s a s' → grant a = some t → t ≤ token s'
  token_of_use : ∀ {s a s' t}, ok a → step s a s' → use a t → token s = t

namespace Fence

variable {step : σ → α → σ → Prop} {ok : α → Prop} (F : Fence step ok τ)
variable {s s' : σ} {l : List α}

theorem token_le_of_run (h : Run step s l s') (hl : ∀ a ∈ l, ok a) : F.token s ≤ F.token s' :=
  h.le fun _ a _ ha hst => F.token_le (hl a ha) hst

/-- **Successive grants increase.** -/
theorem grant_lt_grant {l₁ l₂ l₃ : List α} {a b : α} {t u : τ}
    (h : Run step s (l₁ ++ a :: (l₂ ++ b :: l₃)) s')
    (hl : ∀ c ∈ l₁ ++ a :: (l₂ ++ b :: l₃), ok c)
    (ha : F.grant a = some t) (hb : F.grant b = some u) : t < u := by
  obtain ⟨s₁, s₂, -, hsa, h₂⟩ := h.at_label
  obtain ⟨s₃, s₄, h₃, hsb, -⟩ := h₂.at_label
  have h₁ : (t : WithBot τ) ≤ F.token s₂ := F.grant_le_token (hl a (by simp)) hsa ha
  have h₂ : F.token s₂ ≤ F.token s₃ := F.token_le_of_run h₃ fun c hc => hl c (by simp [hc])
  have h₃ : F.token s₃ < u := F.token_lt_grant (hl b (by simp)) hsb hb
  exact WithBot.coe_lt_coe.mp (h₁.trans_lt (h₂.trans_lt h₃))

/-- **A token that has been passed never gets through again.** -/
theorem not_use_of_lt {t : τ} {a : α} (h : Run step s l s') (hl : ∀ a ∈ l, ok a)
    (ht : t < F.token s) (ha : a ∈ l) : ¬F.use a t := by
  intro hu
  obtain ⟨l₁, l₂, rfl⟩ := List.append_of_mem ha
  obtain ⟨s₁, s₂, h₁, hsa, -⟩ := h.at_label
  have hle : F.token s ≤ F.token s₁ := F.token_le_of_run h₁ fun c hc => hl c (by simp [hc])
  rw [F.token_of_use (hl a (by simp)) hsa hu] at hle
  exact absurd (ht.trans_le hle) (lt_irrefl _)

end Fence

end Varco
