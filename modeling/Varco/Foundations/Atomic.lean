import Mathlib.Data.List.Forall2
import Mathlib.Order.Basic

/-!
# Operations that raise or change a state

An operation on a state that raises leaves the state as it was (`Atomic`), which is what a unit of
work is for. `Respects P x Q` follows two runs through their steps: from states that `P` relates,
`x` returns the same value and leaves states that `Q` relates, or raises the same exception.
-/

namespace Varco

/-- An operation that returns a value and the next state, or raises. -/
abbrev Atomic (σ ε α : Type) : Type := StateT σ (Except ε) α

namespace Atomic

variable {σ ε α β γ : Type} {s s' : σ}

/-- What runs a step, and then what depends on its value. -/
theorem bind_apply (x : Atomic σ ε α) (f : α → Atomic σ ε β) (s : σ) :
    (x >>= f) s = match x s with
      | .ok (a, s') => f a s'
      | .error e => .error e := by
  change (x s >>= fun p => f p.1 p.2) = _
  cases x s <;> rfl

variable {x : Atomic σ ε α}

theorem bind_ok {f : α → Atomic σ ε β} {b : β} :
    (x >>= f) s = .ok (b, s') ↔ ∃ a t, x s = .ok (a, t) ∧ f a t = .ok (b, s') := by
  rw [bind_apply]
  cases x s with
  | ok p =>
    obtain ⟨a, t⟩ := p
    constructor
    · exact fun h => ⟨a, t, rfl, h⟩
    · rintro ⟨a', t', h, h'⟩
      cases h
      exact h'
  | error e =>
    constructor
    · exact fun h => by cases h
    · rintro ⟨_, _, h, -⟩
      cases h

def lift (r : Except ε α) : Atomic σ ε α := fun s => r.map (·, s)

theorem lift_ok {r : Except ε α} {a : α} : (lift r : Atomic σ ε α) s = .ok (a, s') ↔
    r = .ok a ∧ s' = s := by
  cases r with
  | ok b =>
    change Except.ok (b, s) = _ ↔ _
    rw [Except.ok.injEq, Prod.mk.injEq, Except.ok.injEq, eq_comm (a := s)]
  | error e => exact iff_of_false (fun h => by cases h) fun h => by cases h.1

theorem pure_ok {a b : α} : (pure a : Atomic σ ε α) s = .ok (b, s') ↔ b = a ∧ s' = s := by
  change Except.ok (a, s) = _ ↔ _
  rw [Except.ok.injEq, Prod.mk.injEq, eq_comm, eq_comm (a := s)]

theorem modify_ok {f : σ → σ} {u : PUnit} : (modify f : Atomic σ ε PUnit) s = .ok (u, s') ↔
    s' = f s := by
  change Except.ok (PUnit.unit, f s) = _ ↔ _
  rw [Except.ok.injEq, Prod.mk.injEq, eq_comm (a := s')]
  exact and_iff_right rfl

theorem map_ok {g : α → β} {b : β} :
    (x >>= fun a => pure (g a)) s = .ok (b, s') ↔ ∃ a, x s = .ok (a, s') ∧ b = g a := by
  rw [bind_ok]
  constructor
  · rintro ⟨a, t, hx, h⟩
    obtain ⟨rfl, rfl⟩ := pure_ok.mp h
    exact ⟨a, hx, rfl⟩
  · rintro ⟨a, hx, rfl⟩
    exact ⟨a, s', hx, rfl⟩

variable {k : α → Atomic σ ε β}

theorem mapM_nil_ok {l : List β} (h : ([] : List α).mapM k s = .ok (l, s')) : l = [] ∧ s' = s := by
  rw [List.mapM_nil] at h
  exact pure_ok.mp h

theorem mapM_cons_ok {a : α} {as : List α} {l : List β} (h : (a :: as).mapM k s = .ok (l, s')) :
    ∃ b t bs, k a s = .ok (b, t) ∧ as.mapM k t = .ok (bs, s') ∧ l = b :: bs := by
  rw [List.mapM_cons] at h
  obtain ⟨b, t, h₁, h'⟩ := bind_ok.mp h
  obtain ⟨bs, t', h₂, h''⟩ := bind_ok.mp h'
  obtain ⟨rfl, rfl⟩ := pure_ok.mp h''
  exact ⟨b, t, bs, h₁, h₂, rfl⟩

theorem mapM_cons_iff {a : α} {as : List α} {l : List β} :
    (a :: as).mapM k s = .ok (l, s') ↔
      ∃ b t bs, k a s = .ok (b, t) ∧ as.mapM k t = .ok (bs, s') ∧ l = b :: bs := by
  constructor
  · exact mapM_cons_ok
  · rintro ⟨b, t, bs, h, hbs, rfl⟩
    rw [List.mapM_cons]
    exact bind_ok.mpr ⟨b, t, h, bind_ok.mpr ⟨bs, s', hbs, pure_ok.mpr ⟨rfl, rfl⟩⟩⟩

theorem mapM_nil_iff {l : List β} :
    ([] : List α).mapM k s = .ok (l, s') ↔ l = [] ∧ s' = s := by
  rw [List.mapM_nil]
  exact pure_ok

/-- A loop whose steps only look at the state finds at each element what the step finds there. -/
theorem mapM_look_ok {Q : α → β → Prop}
    (hk : ∀ a b s', k a s = .ok (b, s') ↔ Q a b ∧ s' = s) {as : List α} {l : List β} :
    as.mapM k s = .ok (l, s') ↔ List.Forall₂ Q as l ∧ s' = s := by
  induction as generalizing l with
  | nil =>
    rw [mapM_nil_iff, List.forall₂_nil_left_iff]
  | cons a as ih =>
    rw [mapM_cons_iff]
    constructor
    · rintro ⟨b, t, bs, h, hbs, rfl⟩
      obtain ⟨hQ, rfl⟩ := (hk a b t).mp h
      obtain ⟨hall, rfl⟩ := ih.mp hbs
      exact ⟨.cons hQ hall, rfl⟩
    · rintro ⟨hall, rfl⟩
      obtain ⟨b, bs, hQ, hrest, rfl⟩ := List.forall₂_cons_left_iff.mp hall
      exact ⟨b, _, bs, (hk a b _).mpr ⟨hQ, rfl⟩, ih.mpr ⟨hrest, rfl⟩, rfl⟩

/-! ## Two runs -/

/-- The same value, and states that `Q` relates; or the same exception. -/
def Related (Q : α → σ → σ → Prop) (r₁ r₂ : Except ε (α × σ)) : Prop :=
  (∃ a t₁ t₂, r₁ = .ok (a, t₁) ∧ r₂ = .ok (a, t₂) ∧ Q a t₁ t₂) ∨
    ∃ e, r₁ = .error e ∧ r₂ = .error e

/-- From states that `P` relates, `x` returns the same value and leaves states that `Q` relates, or
raises the same exception. For a `P` that leaves part of the state open, `x` reveals nothing of that
part. -/
def Respects (P : σ → σ → Prop) (x : Atomic σ ε α) (Q : α → σ → σ → Prop) : Prop :=
  ∀ s₁ s₂, P s₁ s₂ → Related Q (x s₁) (x s₂)

namespace Respects

variable {P : σ → σ → Prop} {Q Q' : α → σ → σ → Prop}

theorem pure {a : α} (h : ∀ s₁ s₂, P s₁ s₂ → Q a s₁ s₂) :
    Respects P (pure a : Atomic σ ε α) Q := fun s₁ s₂ hP => .inl ⟨a, s₁, s₂, rfl, rfl, h s₁ s₂ hP⟩

theorem lift {r : Except ε α} (h : ∀ s₁ s₂ a, P s₁ s₂ → r = .ok a → Q a s₁ s₂) :
    Respects P (lift r) Q := by
  intro s₁ s₂ hP
  cases r with
  | ok a => exact .inl ⟨a, s₁, s₂, rfl, rfl, h s₁ s₂ a hP rfl⟩
  | error e => exact .inr ⟨e, rfl, rfl⟩

theorem modify {g : σ → σ} {Q : PUnit → σ → σ → Prop}
    (h : ∀ s₁ s₂, P s₁ s₂ → Q ⟨⟩ (g s₁) (g s₂)) :
    Respects P (modify g : Atomic σ ε PUnit) Q := fun s₁ s₂ hP =>
  .inl ⟨⟨⟩, g s₁, g s₂, rfl, rfl, h s₁ s₂ hP⟩

theorem bind {R : β → σ → σ → Prop}
    (hx : Respects P x Q) (hk : ∀ a, Respects (Q a) (k a) R) : Respects P (x >>= k) R := by
  intro s₁ s₂ hP
  rw [bind_apply, bind_apply]
  obtain ⟨a, t₁, t₂, h₁, h₂, ht⟩ | ⟨e, h₁, h₂⟩ := hx s₁ s₂ hP
  · rw [h₁, h₂]
    exact hk a t₁ t₂ ht
  · rw [h₁, h₂]
    exact .inr ⟨e, rfl, rfl⟩

/-- A step that depends on no state respects everything. -/
theorem lift_bind {r : Except ε α} {R : β → σ → σ → Prop}
    (hk : ∀ a, r = .ok a → Respects P (k a) R) : Respects P (.lift r >>= k) R := by
  intro s₁ s₂ hP
  rw [bind_apply, bind_apply]
  cases r with
  | ok a => exact hk a rfl s₁ s₂ hP
  | error e => exact .inr ⟨e, rfl, rfl⟩

theorem weaken (hx : Respects P x Q) (h : ∀ a s₁ s₂, Q a s₁ s₂ → Q' a s₁ s₂) :
    Respects P x Q' := by
  intro s₁ s₂ hP
  obtain ⟨a, t₁, t₂, h₁, h₂, ht⟩ | herror := hx s₁ s₂ hP
  · exact .inl ⟨a, t₁, t₂, h₁, h₂, h a t₁ t₂ ht⟩
  · exact .inr herror

theorem mono_left {P' : σ → σ → Prop} (hx : Respects P x Q)
    (h : ∀ s₁ s₂, P' s₁ s₂ → P s₁ s₂) : Respects P' x Q := fun s₁ s₂ hP => hx s₁ s₂ (h s₁ s₂ hP)

/-- What is known of every value that `x` returns is known of the common one. -/
theorem strengthen {F : α → Prop} (hx : Respects P x Q) (h : ∀ s a s', x s = .ok (a, s') → F a) :
    Respects P x fun a s₁ s₂ => Q a s₁ s₂ ∧ F a := by
  intro s₁ s₂ hP
  obtain ⟨a, t₁, t₂, h₁, h₂, ht⟩ | herror := hx s₁ s₂ hP
  · exact .inl ⟨a, t₁, t₂, h₁, h₂, ht, h s₁ a t₁ h₁⟩
  · exact .inr herror

theorem mapM {I : σ → σ → Prop} {l : List α}
    (hk : ∀ a ∈ l, Respects I (k a) fun _ => I) : Respects I (l.mapM k) fun _ => I := by
  induction l with
  | nil =>
    rw [List.mapM_nil]
    exact .pure fun _ _ h => h
  | cons a l ih =>
    rw [List.mapM_cons]
    exact (hk a List.mem_cons_self).bind fun _ =>
      (ih fun b hb => hk b (List.mem_cons_of_mem _ hb)).bind fun _ => .pure fun _ _ h => h

end Respects

end Atomic

end Varco
