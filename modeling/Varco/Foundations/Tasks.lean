import Varco.Foundations.Run

/-!
# Interleaved tasks

Any number of tasks over one shared state. A task is in a phase: the await at which it is suspended,
with its local variables. `next a s p` is what one task does in the phase `p` when it is given `a`
(what the awaited call ended with, what the clock shows), until it is suspended again: the shared
state and its phase then, and `none` if it cannot go on. One step of the system lets one task go on,
so a run is an interleaving in which tasks are switched only where they are suspended.

A lock is kept by the tasks in some of their phases (`Mutex`).
-/

namespace Varco

open Function

/-- The shared state, and the phase of each task. -/
structure Tasks (ι σ φ : Type) where
  shared : σ
  phase : ι → φ

namespace Tasks

variable {ι σ φ A : Type} [DecidableEq ι]

def put (w : Tasks ι σ φ) (i : ι) (q : σ × φ) : Tasks ι σ φ :=
  ⟨q.1, update w.phase i q.2⟩

def Step (next : A → σ → φ → Option (σ × φ)) (w : Tasks ι σ φ) (a : ι × A) (w' : Tasks ι σ φ) :
    Prop :=
  ∃ q, next a.2 w.shared (w.phase a.1) = some q ∧ w' = w.put a.1 q

def advance (next : A → σ → φ → Option (σ × φ)) (w : Tasks ι σ φ) :
    List (ι × A) → Option (Tasks ι σ φ)
  | [] => some w
  | a :: l => (next a.2 w.shared (w.phase a.1)).bind fun q => advance next (w.put a.1 q) l

variable {w w' : Tasks ι σ φ} {i j : ι} {q q' : σ × φ}

@[simp] theorem put_shared : (w.put i q).shared = q.1 := rfl

@[simp] theorem put_phase : (w.put i q).phase = update w.phase i q.2 := rfl

theorem put_phase_self : (w.put i q).phase i = q.2 := update_self ..

theorem put_phase_of_ne (h : j ≠ i) : (w.put i q).phase j = w.phase j := update_of_ne h ..

@[simp] theorem put_put : (w.put i q).put i q' = w.put i q' := by
  simp [put]

variable {next : A → σ → φ → Option (σ × φ)} {a : ι × A} {l : List (ι × A)}

theorem Step.det {w₁ w₂ : Tasks ι σ φ} (h₁ : Step next w a w₁) (h₂ : Step next w a w₂) :
    w₁ = w₂ := by
  obtain ⟨q₁, hq₁, rfl⟩ := h₁
  obtain ⟨q₂, hq₂, rfl⟩ := h₂
  rw [Option.some.inj (hq₁.symm.trans hq₂)]

def go (next : A → σ → φ → Option (σ × φ)) (w : Tasks ι σ φ) (a : ι × A) : Option (Tasks ι σ φ) :=
  (next a.2 w.shared (w.phase a.1)).map (w.put a.1)

theorem step_of_go (h : go next w a = some w') : Step next w a w' := by
  obtain ⟨q, hq, rfl⟩ := Option.map_eq_some_iff.mp h
  exact ⟨q, hq, rfl⟩

/-- A guarded run whose steps can be computed, and checked. -/
theorem guarded_of_isSome {ok : List (ι × A) → Tasks ι σ φ → ι × A → Prop}
    {check : Tasks ι σ φ → ι × A → Prop} [∀ w a, Decidable (check w a)]
    (hcheck : ∀ l w a, check w a → ok l w a)
    (h : (l.foldlM (fun w a => if check w a then go next w a else none) w).isSome) :
    Guarded (Step next) ok w l (Option.get _ h) :=
  Guarded.nil.foldlM (fun _ _ _ => step_of_go) hcheck (Option.some_get h).symm

theorem run_of_advance (h : advance next w l = some w') : Run (Step next) w l w' := by
  induction l generalizing w with
  | nil =>
    cases h
    exact .nil _
  | cons a l ih =>
    obtain ⟨q, hq, h⟩ := Option.bind_eq_some_iff.mp h
    exact .cons ⟨q, hq, rfl⟩ (ih h)

theorem advance_of_run (h : Run (Step next) w l w') : advance next w l = some w' := by
  induction h with
  | nil => rfl
  | cons hst _ ih =>
    obtain ⟨q, hq, rfl⟩ := hst
    exact Option.bind_eq_some_iff.mpr ⟨q, hq, ih⟩

end Tasks

/-! ## Locks -/

/-- A lock that the tasks in the phases `holds` keep, one of them at most. -/
structure Mutex {ι φ : Type} (locked : Prop) (holds : φ → Prop) (phase : ι → φ) : Prop where
  locked_of_holds : ∀ i, holds (phase i) → locked
  unique : ∀ i j, holds (phase i) → holds (phase j) → i = j

namespace Mutex

variable {ι φ : Type} [DecidableEq ι] {locked locked' : Prop} {holds : φ → Prop} {phase : ι → φ}
  {i : ι} {p : φ}

/-- **A task goes on**: it held the lock before, or takes it where it is free; and the lock stays
locked, unless the task gives it back. -/
theorem update (h : Mutex locked holds phase)
    (htake : holds p → holds (phase i) ∨ ¬locked ∧ locked')
    (hkeep : locked → locked' ∨ holds (phase i) ∧ ¬holds p) :
    Mutex locked' holds (update phase i p) := by
  -- the other tasks hold what they held
  have hother : ∀ j, j ≠ i → holds (phase j) → locked' ∧ ¬holds p := by
    intro j hj hholds
    have hi : ¬holds (phase i) := fun hi => hj (h.unique j i hholds hi)
    have hlocked := h.locked_of_holds j hholds
    exact ⟨(hkeep hlocked).resolve_right fun hback => hi hback.1,
      fun hp => (htake hp).elim hi fun hfree => hfree.1 hlocked⟩
  have hself : holds p → locked' := by
    intro hp
    rcases htake hp with hi | hfree
    · exact (hkeep (h.locked_of_holds i hi)).resolve_right fun hback => hback.2 hp
    · exact hfree.2
  constructor
  · intro j hj
    by_cases hji : j = i
    · rw [hji, update_self] at hj
      exact hself hj
    · rw [update_of_ne hji] at hj
      exact (hother j hji hj).1
  · intro j k hj hk
    by_cases hji : j = i
    · by_cases hki : k = i
      · rw [hji, hki]
      · rw [hji, update_self] at hj
        rw [update_of_ne hki] at hk
        exact absurd hj (hother k hki hk).2
    · by_cases hki : k = i
      · rw [update_of_ne hji] at hj
        rw [hki, update_self] at hk
        exact absurd hk (hother j hji hj).2
      · rw [update_of_ne hji] at hj
        rw [update_of_ne hki] at hk
        exact h.unique j k hj hk

end Mutex

end Varco
