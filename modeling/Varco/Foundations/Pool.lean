import Varco.Foundations.Prog

/-!
# Interleaving

A pool runs any number of programs over one shared state. A step lets one thread issue its next
command: `exec i x c s` is the answer and the state after it, for the choice `x` of the environment
(a clock reading, the order of an unordered answer, a failure), and `none` when the environment may
not choose so. A run of the pool is a list of events, so a statement about all runs is one about
every interleaving of the threads.

`issued` is how the two levels meet: the program logic of `Prog.Local` holds of the log of each
thread of any run. `sched` runs a pool under a given schedule.
-/

namespace Varco

open List

variable {ι σ Q C : Type} {R : C → Type} {α : Type}

/-- A thread issues a command and is answered. -/
structure Event (ι Q C : Type) (R : C → Type) extends Entry Q C R where
  thread : ι

/-- The shared state, and what is left of each thread's program. -/
structure Pool (ι σ C : Type) (R : C → Type) (α : Type) where
  shared : σ
  prog : ι → Prog C R α

namespace Pool

variable [DecidableEq ι]

def log (i : ι) (l : List (Event ι Q C R)) : List (Entry Q C R) :=
  (l.filter (·.thread = i)).map Event.toEntry

theorem log_cons_self (e : Event ι Q C R) (l : List (Event ι Q C R)) :
    log e.thread (e :: l) = e.toEntry :: log e.thread l := by
  simp [log]

variable {i : ι}

theorem log_cons_ne {e : Event ι Q C R} (l : List (Event ι Q C R)) (h : e.thread ≠ i) :
    log i (e :: l) = log i l := by
  simp [log, h]

theorem log_snoc_self (l : List (Event ι Q C R)) (e : Event ι Q C R) :
    log e.thread (l ++ [e]) = log e.thread l ++ [e.toEntry] := by
  simp [log]

theorem log_snoc_ne {e : Event ι Q C R} (l : List (Event ι Q C R)) (h : e.thread ≠ i) :
    log i (l ++ [e]) = log i l := by
  simp [log, h]

theorem log_append (i : ι) (l₁ l₂ : List (Event ι Q C R)) :
    log i (l₁ ++ l₂) = log i l₁ ++ log i l₂ := by
  simp [log]

variable {l : List (Event ι Q C R)}

theorem mem_log {x : Entry Q C R} :
    x ∈ log i l ↔ ∃ e ∈ l, e.thread = i ∧ e.toEntry = x := by
  simp only [log, mem_map, mem_filter, decide_eq_true_eq]
  constructor
  · rintro ⟨e, ⟨he, hi⟩, rfl⟩
    exact ⟨e, he, hi, rfl⟩
  · rintro ⟨e, he, hi, rfl⟩
    exact ⟨e, ⟨he, hi⟩, rfl⟩

omit [DecidableEq ι] in
/-- Threads that run one after the other: between two steps of a thread there are its own only. -/
theorem thread_of_between [PartialOrder ι] {l₁ l₂ l₃ : List (Event ι Q C R)}
    {g e a : Event ι Q C R}
    (h : ((l₁ ++ g :: l₂ ++ e :: l₃).map Event.thread).Pairwise (· ≤ ·))
    (hg : g.thread = e.thread) (ha : a ∈ l₂) : a.thread = e.thread := by
  rw [pairwise_map, pairwise_append] at h
  have hbefore : g.thread ≤ a.thread :=
    (pairwise_cons.mp (pairwise_append.mp h.1).2.1).1 a ha
  have hafter : a.thread ≤ e.thread := h.2.2 a (by simp [ha]) e mem_cons_self
  exact le_antisymm hafter (hg ▸ hbefore)

def history (l : List (Event ι Q C R)) : List (Entry Q C R) := l.map Event.toEntry

omit [DecidableEq ι] in
theorem history_snoc (l : List (Event ι Q C R)) (e : Event ι Q C R) :
    history (l ++ [e]) = history l ++ [e.toEntry] := by
  simp [history]

theorem log_subset_history (i : ι) (l : List (Event ι Q C R)) : log i l ⊆ history l := by
  intro x hx
  obtain ⟨e, he, -, rfl⟩ := mem_log.mp hx
  exact mem_map_of_mem he

theorem split_log {pre post : List (Entry Q C R)}
    {x : Entry Q C R} (h : log i l = pre ++ x :: post) :
    ∃ l₁ e l₂, l = l₁ ++ e :: l₂ ∧ e.thread = i ∧ e.toEntry = x ∧ log i l₁ = pre ∧
      log i l₂ = post := by
  induction l generalizing pre with
  | nil => simp [log] at h
  | cons e l ih =>
    by_cases he : e.thread = i
    · subst he
      rw [log_cons_self] at h
      cases pre with
      | nil =>
        obtain ⟨rfl, rfl⟩ := List.cons.inj h
        exact ⟨[], e, l, rfl, rfl, rfl, rfl, rfl⟩
      | cons y pre =>
        obtain ⟨rfl, h'⟩ := List.cons.inj h
        obtain ⟨l₁, e', l₂, rfl, hi, hx, h₁, h₂⟩ := ih h'
        exact ⟨e :: l₁, e', l₂, rfl, hi, hx, by rw [log_cons_self, h₁], h₂⟩
    · rw [log_cons_ne l he] at h
      obtain ⟨l₁, e', l₂, rfl, hi, hx, h₁, h₂⟩ := ih h
      exact ⟨e :: l₁, e', l₂, rfl, hi, hx, by rw [log_cons_ne l₁ he, h₁], h₂⟩

theorem log_filter_ne {j : ι} (h : j ≠ i) (l : List (Event ι Q C R)) :
    log j (l.filter (·.thread ≠ i)) = log j l := by
  simp only [log, filter_filter]
  congr 1
  refine filter_congr fun e _ => ?_
  by_cases he : e.thread = j
  · simp [he, h]
  · simp [he]

theorem log_filter_self (i : ι) (l : List (Event ι Q C R)) :
    log i (l.filter (·.thread ≠ i)) = [] := by
  simp only [log, filter_filter, map_eq_nil_iff, filter_eq_nil_iff]
  intro e _
  simp

theorem countP_split (p : Entry Q C R → Bool) (i : ι) (l : List (Event ι Q C R)) :
    l.countP (fun e => p e.toEntry) =
      (log i l).countP p + (l.filter (·.thread ≠ i)).countP (fun e => p e.toEntry) := by
  induction l with
  | nil => rfl
  | cons e l ih =>
    by_cases he : e.thread = i
    · subst he
      rw [log_cons_self, countP_cons, countP_cons, ih,
        filter_cons_of_neg (by simp)]
      omega
    · rw [log_cons_ne l he, filter_cons_of_pos (by simpa using he), countP_cons,
        countP_cons, ih]
      omega

/-- **What holds thread by thread holds of the run**: if no thread's log has more `p` than `q`, the
run has no more `p` than `q`. -/
theorem countP_le_of_log {p q : Entry Q C R → Bool}
    (h : ∀ i, (log i l).countP p ≤ (log i l).countP q) :
    l.countP (fun e => p e.toEntry) ≤ l.countP (fun e => q e.toEntry) := by
  -- one thread at a time: its events are taken out of the run
  induction hn : l.length using Nat.strongRecOn generalizing l with
  | ind n ih =>
    cases l with
    | nil => exact Nat.le_refl _
    | cons e l =>
      rw [countP_split p e.thread, countP_split q e.thread]
      refine Nat.add_le_add (h e.thread) (ih _ ?_ (fun j => ?_) rfl)
      · rw [← hn, filter_cons_of_neg (by simp), length_cons]
        exact Nat.lt_succ_of_le (length_filter_le ..)
      · by_cases hj : j = e.thread
        · rw [hj, log_filter_self]
          exact Nat.le_refl _
        · rw [log_filter_ne hj]
          exact h j

/-- If every `p` comes after more `q` than `p` in its thread's log, the run has no more `p` than
`q`. -/
theorem countP_le_of_issued {p q : Entry Q C R → Bool}
    (h : ∀ l₁ (e : Event ι Q C R) l₂, l = l₁ ++ e :: l₂ → p e.toEntry = true →
      (log e.thread l₁).countP p < (log e.thread l₁).countP q) :
    l.countP (fun e => p e.toEntry) ≤ l.countP (fun e => q e.toEntry) := by
  refine countP_le_of_log fun i => ?_
  induction l using List.reverseRecOn with
  | nil => exact Nat.le_refl _
  | append_singleton l e ih =>
    have hl := ih fun l₁ e' l₂ he => h l₁ e' (l₂ ++ [e]) (by rw [he]; simp)
    by_cases hi : e.thread = i
    · subst hi
      have he := h l e [] rfl
      rw [log_snoc_self, countP_append, countP_append, countP_singleton,
        countP_singleton]
      split_ifs with hp hq hq
      · omega
      · have hlt := he hp
        omega
      · omega
      · omega
    · rwa [log_snoc_ne l hi]

variable (exec : ι → Q → (c : C) → σ → Option (R c × σ))

def Step (P : Pool ι σ C R α) (e : Event ι Q C R) (P' : Pool ι σ C R α) : Prop :=
  ∃ k, P.prog e.thread = .cmd e.cmd k ∧
    exec e.thread e.choice e.cmd P.shared = some (e.res, P'.shared) ∧
    P'.prog = Function.update P.prog e.thread (k e.res)

variable {exec} {P P' : Pool ι σ C R α} {l l₁ l₂ : List (Event ι Q C R)} {e : Event ι Q C R}

theorem Step.exec_eq (h : Step exec P e P') :
    exec e.thread e.choice e.cmd P.shared = some (e.res, P'.shared) := by
  obtain ⟨k, -, hex, -⟩ := h
  exact hex

/-- A step of an environment that allows every choice: its event, and the state after it. -/
theorem Step.total_eq {f : Q → (c : C) → σ → R c × σ}
    (h : Step (fun _ x c s => some (f x c s)) P e P') :
    e.toEntry = ⟨e.choice, e.cmd, (f e.choice e.cmd P.shared).1⟩ ∧
      P'.shared = (f e.choice e.cmd P.shared).2 := by
  have hexec := Option.some.inj h.exec_eq
  obtain ⟨⟨x, c, r⟩, i⟩ := e
  have hr : (f x c P.shared).1 = r := congrArg Prod.fst hexec
  exact ⟨by rw [hr], (congrArg Prod.snd hexec).symm⟩

theorem Step.det {P₁ P₂ : Pool ι σ C R α} (h₁ : Step exec P e P₁) (h₂ : Step exec P e P₂) :
    P₁ = P₂ := by
  obtain ⟨k₁, hk₁, hs₁, hp₁⟩ := h₁
  obtain ⟨k₂, hk₂, hs₂, hp₂⟩ := h₂
  cases hk₁.symm.trans hk₂
  have hs := (Prod.mk.inj (Option.some.inj (hs₁.symm.trans hs₂))).2
  cases P₁
  cases P₂
  rw [Pool.mk.injEq]
  exact ⟨hs, hp₁.trans hp₂.symm⟩

/-- **Each thread follows its program.** -/
theorem after_of_run (h : Run (Step exec) P l P') (i : ι) :
    Prog.After (P.prog i) (log i l) (P'.prog i) := by
  induction h with
  | nil => exact .nil _
  | @cons P P₁ P' e l hst _ ih =>
    obtain ⟨k, hk, -, hupd⟩ := hst
    rw [hupd] at ih
    by_cases he : e.thread = i
    · subst he
      rw [Function.update_self] at ih
      rw [log_cons_self, hk]
      exact .cons e.choice e.res ih
    · rw [Function.update_of_ne (Ne.symm he)] at ih
      rwa [log_cons_ne l he]

theorem ret_of_run (h : Run (Step exec) P l P') {a : α} (hret : P.prog i = .ret a) :
    P'.prog i = .ret a ∧ log i l = [] := by
  have hafter := after_of_run h i
  rw [hret] at hafter
  generalize log i l = li, P'.prog i = q at hafter
  cases hafter
  exact ⟨rfl, rfl⟩

variable {A : Q → (c : C) → R c → Prop} {Φ : ι → List (Entry Q C R) → C → Prop}
  {Ψ : ι → List (Entry Q C R) → α → Prop}

section

variable (hA : ∀ i x c s r s', exec i x c s = some (r, s') → A x c r)

include hA

/-- The answers of a run are answers of `exec`. -/
theorem answers_of_run (h : Run (Step exec) P l P') (he : e ∈ l) : A e.choice e.cmd e.res := by
  obtain ⟨l₁, l₂, rfl⟩ := append_of_mem he
  obtain ⟨P₁, P₂, -, hst, -⟩ := h.at_label
  exact hA _ _ _ _ _ _ hst.exec_eq

theorem answers_of_log (h : Run (Step exec) P l P') (i : ι) :
    ∀ x ∈ log i l, A x.choice x.cmd x.res := by
  intro x hx
  obtain ⟨e, he, -, rfl⟩ := mem_log.mp hx
  exact answers_of_run hA h he

/-- **Adequacy for commands**: every command of a run satisfies what its thread's program was shown
to satisfy, for the thread's own log. -/
theorem issued (hlocal : ∀ i, Prog.Local A (Φ i) (Ψ i) (P.prog i) [])
    (h : Run (Step exec) P (l₁ ++ e :: l₂) P') : Φ e.thread (log e.thread l₁) e.cmd := by
  obtain ⟨P₁, P₂, h₁, ⟨k, hk, -⟩, -⟩ := h.at_label
  have hrest := (hlocal e.thread).after (after_of_run h₁ e.thread) (answers_of_log hA h₁ e.thread)
  rw [nil_append, hk] at hrest
  exact hrest.1

/-- **Adequacy for results.** -/
theorem returned (hlocal : ∀ i, Prog.Local A (Φ i) (Ψ i) (P.prog i) [])
    (h : Run (Step exec) P l P') {a : α} (hret : P'.prog i = .ret a) : Ψ i (log i l) a := by
  have hrest := (hlocal i).after (after_of_run h i) (answers_of_log hA h i)
  rwa [nil_append, hret] at hrest

end

/-! ## Schedules -/

/-- One step of thread `i` under the choice `x`. -/
def stepSched (exec : ι → Q → (c : C) → σ → Option (R c × σ)) (P : Pool ι σ C R α) (i : ι) (x : Q) :
    Option (Event ι Q C R × Pool ι σ C R α) :=
  match P.prog i with
  | .ret _ => none
  | .cmd c k =>
    (exec i x c P.shared).map fun (r, s) =>
      (⟨⟨x, c, r⟩, i⟩, ⟨s, Function.update P.prog i (k r)⟩)

/-- Run a schedule: which thread goes next and what the environment chooses. -/
def sched (exec : ι → Q → (c : C) → σ → Option (R c × σ)) (P : Pool ι σ C R α) :
    List (ι × Q) → Option (List (Event ι Q C R) × Pool ι σ C R α)
  | [] => some ([], P)
  | (i, x) :: rest =>
    (stepSched exec P i x).bind fun (e, P₁) =>
      (sched exec P₁ rest).map fun (l, P₂) => (e :: l, P₂)

theorem step_of_stepSched {x : Q} (h : stepSched exec P i x = some (e, P')) :
    Step exec P e P' := by
  unfold stepSched at h
  split at h
  · cases h
  · rename_i c k hk
    obtain ⟨⟨r, s⟩, hex, he⟩ := Option.map_eq_some_iff.mp h
    cases he
    exact ⟨k, hk, hex, rfl⟩

theorem run_of_sched {q : List (ι × Q)} (h : sched exec P q = some (l, P')) :
    Run (Step exec) P l P' := by
  induction q generalizing P l with
  | nil =>
    cases h
    exact .nil _
  | cons p q ih =>
    obtain ⟨⟨e, P₁⟩, h₁, h⟩ := Option.bind_eq_some_iff.mp h
    obtain ⟨⟨l', P₂⟩, h₂, h⟩ := Option.map_eq_some_iff.mp h
    cases h
    exact .cons (step_of_stepSched h₁) (ih h₂)

end Pool

end Varco
