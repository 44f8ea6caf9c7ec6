import Mathlib.Data.List.Induction
import Mathlib.Order.Basic

/-!
# Runs of a labelled transition relation

A system is a relation `step s a s'` on states, labelled by what happened (`a`). A run is the list
of the labels of consecutive steps, oldest first. Everything said below about "any run" is proved
from what one step does:

* `Run.invariant`: a predicate that every step keeps holds after the run;
* `Run.le`: a measure that no step decreases is not decreased by the run;
* `Run.split`, `Run.at_label`: a run through a given label is a run to it, its step, and a run from
  it, which is how two labels of one run are compared.

A condition on the steps of a run may depend on what happened before: `Guarded step ok` are the runs
each of whose steps is allowed by `ok`, given the labels so far and the state it starts from.
-/

namespace Varco

open List

variable {σ α : Type*}

/-- `Run step s l s'`: the steps labelled `l`, in order, lead from `s` to `s'`. -/
inductive Run (step : σ → α → σ → Prop) : σ → List α → σ → Prop
  | nil (s : σ) : Run step s [] s
  | cons {s s' s'' : σ} {a : α} {l : List α} :
      step s a s' → Run step s' l s'' → Run step s (a :: l) s''

namespace Run

variable {step : σ → α → σ → Prop} {s s' s'' : σ} {l l₁ l₂ : List α} {a : α}

theorem single (h : step s a s') : Run step s [a] s' := .cons h (.nil s')

theorem append (h₁ : Run step s l₁ s') (h₂ : Run step s' l₂ s'') :
    Run step s (l₁ ++ l₂) s'' := by
  induction h₁ with
  | nil => exact h₂
  | cons h _ ih => exact .cons h (ih h₂)

theorem split (h : Run step s (l₁ ++ l₂) s'') :
    ∃ s', Run step s l₁ s' ∧ Run step s' l₂ s'' := by
  induction l₁ generalizing s with
  | nil => exact ⟨s, .nil s, h⟩
  | cons a l₁ ih =>
    cases h with
    | cons h₁ h₂ =>
      obtain ⟨s', h₃, h₄⟩ := ih h₂
      exact ⟨s', .cons h₁ h₃, h₄⟩

theorem cons_inv (h : Run step s (a :: l) s'') : ∃ s', step s a s' ∧ Run step s' l s'' := by
  cases h with
  | cons h₁ h₂ => exact ⟨_, h₁, h₂⟩

theorem nil_inv (h : Run step s [] s') : s' = s := by
  cases h
  rfl

theorem at_label (h : Run step s (l₁ ++ a :: l₂) s'') :
    ∃ t t', Run step s l₁ t ∧ step t a t' ∧ Run step t' l₂ s'' := by
  obtain ⟨t, h₁, h₂⟩ := h.split
  obtain ⟨t', h₃, h₄⟩ := h₂.cons_inv
  exact ⟨t, t', h₁, h₃, h₄⟩

/-- **The invariant rule.** The step lemma may use that the label occurs in the run. -/
theorem invariant {I : σ → Prop} (h : Run step s l s')
    (hstep : ∀ t a t', a ∈ l → step t a t' → I t → I t') (hs : I s) : I s' := by
  induction h with
  | nil => exact hs
  | cons h _ ih =>
    refine ih (fun t b t' hb => hstep t b t' (mem_cons_of_mem _ hb)) ?_
    exact hstep _ _ _ mem_cons_self h hs

/-- A measure that no step of the run decreases is not decreased by the run. -/
theorem le {β : Type*} [Preorder β] {f : σ → β} (h : Run step s l s')
    (hstep : ∀ t a t', a ∈ l → step t a t' → f t ≤ f t') : f s ≤ f s' :=
  h.invariant (I := fun t => f s ≤ f t)
    (fun t a t' ha hst hle => hle.trans (hstep t a t' ha hst)) le_rfl

/-- What no step of the run changes is the same after it. -/
theorem eq_of_step {β : Type*} {f : σ → β} (h : Run step s l s')
    (hstep : ∀ t a t', a ∈ l → step t a t' → f t' = f t) : f s' = f s :=
  h.invariant (I := fun t => f t = f s)
    (fun t a t' ha hst he => (hstep t a t' ha hst).trans he) rfl

theorem snoc_inv (h : Run step s (l ++ [a]) s') : ∃ t, Run step s l t ∧ step t a s' := by
  obtain ⟨t, t', h₁, hst, h₂⟩ := h.at_label
  obtain rfl := h₂.nil_inv
  exact ⟨t, h₁, hst⟩

/-- **The invariant rule with history**: `I l t` for the labels `l` so far and the state `t`. -/
theorem history {I : List α → σ → Prop} (h : Run step s l s') (h₀ : I [] s)
    (hstep : ∀ l t a t', Run step s (l ++ [a]) t' → Run step s l t → step t a t' → I l t →
      I (l ++ [a]) t') : I l s' := by
  induction l using List.reverseRecOn generalizing s' with
  | nil =>
    rw [h.nil_inv]
    exact h₀
  | append_singleton l a ih =>
    obtain ⟨t, ht, hst⟩ := h.snoc_inv
    exact hstep l t a s' h ht hst (ih ht)

/-- The labels determine the run, if they determine each step. -/
theorem det (hdet : ∀ t a u u', step t a u → step t a u' → u = u') (h : Run step s l s')
    (h' : Run step s l s'') : s' = s'' := by
  induction h with
  | nil => exact h'.nil_inv.symm
  | cons hst _ ih =>
    obtain ⟨t, hst', h'⟩ := h'.cons_inv
    rw [hdet _ _ _ _ hst' hst] at h'
    exact ih h'

theorem of_foldlM {f : σ → α → Option σ} (h : l.foldlM f s = some s') :
    Run (fun s a s' => f s a = some s') s l s' := by
  induction l generalizing s with
  | nil =>
    obtain rfl : s = s' := Option.some.inj h
    exact .nil s
  | cons a l ih =>
    rw [foldlM_cons] at h
    obtain ⟨t, hstep, hrest⟩ := Option.bind_eq_some_iff.mp h
    exact .cons hstep (ih hrest)

end Run

/-- Two different labels of a run come one after the other. -/
theorem order_of_mem {l : List α} {a b : α} (ha : a ∈ l) (hb : b ∈ l) (hne : a ≠ b) :
    (∃ l₁ l₂ l₃, l = l₁ ++ a :: (l₂ ++ b :: l₃)) ∨ ∃ l₁ l₂ l₃, l = l₁ ++ b :: (l₂ ++ a :: l₃) := by
  obtain ⟨l₁, l₂, rfl⟩ := append_of_mem ha
  rcases mem_append.mp hb with hb | hb
  · obtain ⟨l₃, l₄, rfl⟩ := append_of_mem hb
    exact Or.inr ⟨l₃, l₄, l₂, by simp⟩
  · rcases mem_cons.mp hb with rfl | hb
    · exact absurd rfl hne
    · obtain ⟨l₃, l₄, rfl⟩ := append_of_mem hb
      exact Or.inl ⟨l₁, l₃, l₄, rfl⟩

/-- The runs from `s` in which `ok` allows every step, given the labels before it and the state it
is taken in. -/
inductive Guarded (step : σ → α → σ → Prop) (ok : List α → σ → α → Prop) (s : σ) :
    List α → σ → Prop
  | nil : Guarded step ok s [] s
  | snoc {l : List α} {t t' : σ} {a : α} :
      Guarded step ok s l t → ok l t a → step t a t' → Guarded step ok s (l ++ [a]) t'

namespace Guarded

variable {step : σ → α → σ → Prop} {ok : List α → σ → α → Prop} {s s' : σ} {l l₁ l₂ : List α}
  {a : α}

theorem run (h : Guarded step ok s l s') : Run step s l s' := by
  induction h with
  | nil => exact .nil s
  | snoc _ _ hst ih => exact ih.append (.single hst)

theorem mono {ok' : List α → σ → α → Prop} (h : Guarded step ok s l s')
    (hok : ∀ l t a, ok l t a → ok' l t a) : Guarded step ok' s l s' := by
  induction h with
  | nil => exact .nil
  | snoc _ ha hst ih => exact .snoc ih (hok _ _ _ ha) hst

theorem snoc_inv (h : Guarded step ok s (l ++ [a]) s') :
    ∃ t, Guarded step ok s l t ∧ ok l t a ∧ step t a s' := by
  generalize hl : l ++ [a] = l' at h
  cases h with
  | nil => simp at hl
  | snoc h₁ hok hst =>
    obtain ⟨rfl, he⟩ := append_inj' hl rfl
    cases he
    exact ⟨_, h₁, hok, hst⟩

theorem split (h : Guarded step ok s (l₁ ++ l₂) s') :
    ∃ t, Guarded step ok s l₁ t ∧ Run step t l₂ s' := by
  induction l₂ using List.reverseRecOn generalizing s' with
  | nil => exact ⟨s', by simpa using h, .nil s'⟩
  | append_singleton l₂ a ih =>
    rw [← append_assoc] at h
    obtain ⟨t', h₁, -, hst⟩ := h.snoc_inv
    obtain ⟨t, h₂, h₃⟩ := ih h₁
    exact ⟨t, h₂, h₃.append (.single hst)⟩

theorem at_label (h : Guarded step ok s (l₁ ++ a :: l₂) s') :
    ∃ t t', Guarded step ok s l₁ t ∧ ok l₁ t a ∧ step t a t' ∧
      Guarded step ok s (l₁ ++ [a]) t' ∧ Run step t' l₂ s' := by
  rw [append_cons] at h
  obtain ⟨t', h₁, h₂⟩ := h.split
  obtain ⟨t, h₃, hok, hst⟩ := h₁.snoc_inv
  exact ⟨t, t', h₃, hok, hst, h₁, h₂⟩

/-- A run goes on guarded if each of its further steps is. -/
theorem extend {t : σ} (h₁ : Guarded step ok s l₁ t) (h₂ : Run step t l₂ s')
    (hok : ∀ l₃ a l₄ u, l₂ = l₃ ++ a :: l₄ → Run step t l₃ u → ok (l₁ ++ l₃) u a) :
    Guarded step ok s (l₁ ++ l₂) s' := by
  induction l₂ using List.reverseRecOn generalizing s' with
  | nil =>
    rw [h₂.nil_inv, append_nil]
    exact h₁
  | append_singleton l a ih =>
    obtain ⟨u, hu, hst⟩ := h₂.snoc_inv
    have hprev := ih hu fun l₃ b l₄ v hl => hok l₃ b (l₄ ++ [a]) v (by rw [hl]; simp)
    rw [← append_assoc]
    exact .snoc hprev (hok l a [] u rfl hu) hst

theorem of_run (h : Run step s l s')
    (hok : ∀ l₁ a l₂ t, l = l₁ ++ a :: l₂ → Run step s l₁ t → ok l₁ t a) :
    Guarded step ok s l s' :=
  Guarded.nil.extend h hok

/-- A guarded run goes on with steps of a partial function, which `check` allows. -/
theorem foldlM {f : σ → α → Option σ} {check : σ → α → Prop} [∀ s a, Decidable (check s a)] {t : σ}
    (h : Guarded step ok s l₁ t) (hstep : ∀ s a s', f s a = some s' → step s a s')
    (hcheck : ∀ l s a, check s a → ok l s a)
    (hrest : l₂.foldlM (fun s a => if check s a then f s a else none) t = some s') :
    Guarded step ok s (l₁ ++ l₂) s' := by
  induction l₂ generalizing l₁ t with
  | nil =>
    obtain rfl : t = s' := Option.some.inj hrest
    rwa [append_nil]
  | cons a l ih =>
    rw [foldlM_cons] at hrest
    obtain ⟨u, hu, hrest⟩ := Option.bind_eq_some_iff.mp hrest
    split_ifs at hu with hallowed
    rw [append_cons]
    exact ih (h.snoc (hcheck l₁ t a hallowed) (hstep t a u hu)) hrest

/-- **The invariant rule with history**: `I l t` for the labels `l` so far and the state `t`. -/
theorem invariant {I : List α → σ → Prop} (h : Guarded step ok s l s') (h₀ : I [] s)
    (hstep : ∀ l t a t', Guarded step ok s l t → ok l t a → step t a t' → I l t → I (l ++ [a]) t') :
    I l s' := by
  induction h with
  | nil => exact h₀
  | snoc h hok hst ih => exact hstep _ _ _ _ h hok hst ih

/-- **The invariant rule from a point of the run on**, for steps that their labels determine. -/
theorem invariant_from {I : List α → σ → Prop} {t t' : σ}
    (hdet : ∀ t a u u', step t a u → step t a u' → u = u')
    (h : Guarded step ok s (l₁ ++ l₂) t') (h₁ : Run step s l₁ t) (h₀ : I l₁ t)
    (hstep : ∀ l t a t', Guarded step ok s (l ++ [a]) t' → Guarded step ok s l t → ok l t a →
      step t a t' → l₁ <+: l → I l t → I (l ++ [a]) t') : I (l₁ ++ l₂) t' := by
  induction l₂ using List.reverseRecOn generalizing t' with
  | nil =>
    rw [append_nil] at h ⊢
    rwa [← h₁.det hdet h.run]
  | append_singleton l₂ a ih =>
    rw [← append_assoc] at h ⊢
    obtain ⟨u, hu, hok, hst⟩ := h.snoc_inv
    exact hstep _ _ _ _ h hu hok hst (prefix_append ..) (ih hu)

/-- A measure that no allowed step decreases is not decreased from a point of the run on. -/
theorem le {β : Type*} [Preorder β] {f : σ → β} {t t' : σ}
    (hdet : ∀ t a u u', step t a u → step t a u' → u = u')
    (h : Guarded step ok s (l₁ ++ l₂) t') (h₁ : Run step s l₁ t)
    (hstep : ∀ l t a t', Guarded step ok s (l ++ [a]) t' → Guarded step ok s l t → ok l t a →
      step t a t' → f t ≤ f t') : f t ≤ f t' :=
  h.invariant_from (I := fun _ u => f t ≤ f u) hdet h₁ le_rfl
    fun l u a u' h' hu hok hst _ hle => hle.trans (hstep l u a u' h' hu hok hst)

end Guarded

end Varco
