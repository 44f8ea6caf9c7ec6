import Mathlib.Order.Lattice
import Varco.Foundations.Run

/-!
# Timed systems

A timed system acts in no time, and lets time pass between its actions. `due s` are the moments at
which something is to happen in the state `s`; time passes to the first of them (`Timed.Step`), and
not while one of them is now. Which of the actions that are possible at one moment comes first is
left open, so a statement about all runs is one about every order of simultaneous actions.

* `Timed.Punctual`: no moment is missed, if no action makes one that is past;
* `Timed.length_le`: the runs are of bounded length, if the actions decrease a rank. Time passes at
  most once between two actions.
-/

namespace Varco

/-- A system with the clock readings `T`: its actions, and the moments that are due. -/
structure Timed (σ α T : Type) where
  clock : σ → T
  /-- The state when the clock shows `t`. -/
  wait : T → σ → σ
  due : σ → List T
  act : σ → α → σ → Prop
  clock_wait : ∀ t s, clock (wait t s) = t
  due_wait : ∀ t s, due (wait t s) = due s

namespace Timed

variable {σ α T : Type} [LinearOrder T] (S : Timed σ α T)

/-- An action, or time passing to the first moment that is due. -/
inductive Step : σ → Option α → σ → Prop
  | act {s s' : σ} {a : α} (h : S.act s a s') : Step s (some a) s'
  | wait {s : σ} {t : T} (hdue : t ∈ S.due s) (hlater : S.clock s < t)
      (hfirst : ∀ u ∈ S.due s, t ≤ u) : Step s none (S.wait t s)

def Punctual (s : σ) : Prop := ∀ u ∈ S.due s, S.clock s ≤ u

def Stuck (s : σ) : Prop := ∀ a s', ¬S.Step s a s'

variable {S} {s s' : σ} {l : List (Option α)}

/-- **Waiting misses nothing.** -/
theorem Punctual.wait {t : T} (hfirst : ∀ u ∈ S.due s, t ≤ u) : S.Punctual (S.wait t s) := by
  intro u hu
  rw [S.due_wait] at hu
  rw [S.clock_wait]
  exact hfirst u hu

/-- The rule for a property that the actions keep in punctual states, and waiting keeps. -/
theorem invariant {I : σ → Prop} (h : Run S.Step s l s') (hs : I s) (hp : S.Punctual s)
    (hact : ∀ s a s', S.Punctual s → I s → S.act s a s' → I s' ∧ S.Punctual s')
    (hwait : ∀ s t, I s → S.clock s < t → (∀ u ∈ S.due s, t ≤ u) → I (S.wait t s)) :
    I s' ∧ S.Punctual s' := by
  refine h.invariant (I := fun s => I s ∧ S.Punctual s) ?_ ⟨hs, hp⟩
  rintro s a s' - hst ⟨hI, hpunctual⟩
  cases hst with
  | act hact' => exact hact _ _ _ hpunctual hI hact'
  | wait hdue hlater hfirst => exact ⟨hwait _ _ hI hlater hfirst, .wait hfirst⟩

/-- Time can pass when something is due, but nothing now. -/
theorem exists_wait (hdue : S.due s ≠ []) (hlater : ∀ u ∈ S.due s, S.clock s < u) :
    ∃ t ∈ S.due s, S.Step s none (S.wait t s) := by
  obtain ⟨t, ht, hfirst⟩ : ∃ t ∈ S.due s, ∀ u ∈ S.due s, t ≤ u := by
    generalize S.due s = us at hdue
    induction us with
    | nil => exact absurd rfl hdue
    | cons u us ih =>
      by_cases hus : us = []
      · exact ⟨u, List.mem_cons_self, by simp [hus]⟩
      · obtain ⟨t, ht, hfirst⟩ := ih hus
        rcases le_total u t with hle | hle
        · refine ⟨u, List.mem_cons_self, fun v hv => ?_⟩
          rcases List.mem_cons.mp hv with rfl | hv
          · exact le_refl v
          · exact le_trans hle (hfirst v hv)
        · refine ⟨t, List.mem_cons_of_mem _ ht, fun v hv => ?_⟩
          rcases List.mem_cons.mp hv with rfl | hv
          · exact hle
          · exact hfirst v hv
  exact ⟨t, ht, .wait ht (hlater t ht) hfirst⟩

/-- **The runs end**: each action decreases the rank, and time passes once between two actions. -/
theorem length_le (rank : σ → ℕ) (hact : ∀ s a s', S.act s a s' → rank s' < rank s)
    (hwait : ∀ t s, rank (S.wait t s) = rank s) (h : Run S.Step s l s') :
    l.length ≤ 2 * rank s + 1 := by
  classical
  -- a state from which time has passed is one in which something is due now
  have hstrong : l.length + 2 * rank s' + (if ∃ u ∈ S.due s', u ≤ S.clock s' then 0 else 1) ≤
      2 * rank s + if ∃ u ∈ S.due s, u ≤ S.clock s then 0 else 1 := by
    induction h with
    | nil => simp
    | @cons s t s' a l hst _ ih =>
      rw [List.length_cons]
      cases hst with
      | act ha =>
        have hlt := hact _ _ _ ha
        have hone : (if ∃ u ∈ S.due t, u ≤ S.clock t then 0 else 1) ≤ 1 := by split_ifs <;> simp
        omega
      | @wait first hdue hlater hfirst =>
        have hnow : ∃ u ∈ S.due (S.wait first s), u ≤ S.clock (S.wait first s) := by
          refine ⟨first, ?_, ?_⟩
          · rwa [S.due_wait]
          · rw [S.clock_wait]
        have hbefore : ¬∃ u ∈ S.due s, u ≤ S.clock s := by
          rintro ⟨u, hu, hle⟩
          exact absurd (lt_of_lt_of_le hlater (le_trans (hfirst u hu) hle)) (lt_irrefl _)
        rw [if_pos hnow, hwait] at ih
        rw [if_neg hbefore]
        omega
  have hone : (if ∃ u ∈ S.due s, u ≤ S.clock s then 0 else 1) ≤ 1 := by split_ifs <;> simp
  omega

end Timed

end Varco
