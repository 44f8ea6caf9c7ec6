import Varco.Foundations.Atomic

/-!
# Operations that raise and leave what they have done

An operation on a state that raises leaves the state as it is at that point (`Lasting`). Two such
operations, on states of two kinds, are compared by a relation between the states: `Similar R p q`
says that from related states they end alike, in related states.

`transaction` runs an atomic operation on a part of the state, and takes over what it has done only
if it returns.
-/

namespace Varco

/-- An operation that returns a value or raises, and leaves a state in either case. -/
abbrev Lasting (σ ε α : Type) : Type := ExceptT ε (StateM σ) α

namespace Lasting

variable {σ τ ε α β : Type}

def outcome (p : Lasting σ ε α) (s : σ) : Except ε α × σ := p s

@[simp] theorem outcome_pure (a : α) (s : σ) :
    (pure a : Lasting σ ε α).outcome s = (.ok a, s) := rfl

theorem outcome_bind (p : Lasting σ ε α) (f : α → Lasting σ ε β) (s : σ) :
    (p >>= f).outcome s =
      match p.outcome s with
      | (.ok a, s') => (f a).outcome s'
      | (.error e, s') => (.error e, s') := by
  change ((ExceptT.bindCont f (p s).1) : StateM σ (Except ε β)) (p s).2 = _
  unfold outcome
  cases h : p s with
  | mk r s' => cases r <;> rfl

variable {f : α → Lasting σ ε β}

theorem bind_ok {p : Lasting σ ε α} {s s' : σ} {b : β} :
    (p >>= f).outcome s = (.ok b, s') ↔
      ∃ a t, p.outcome s = (.ok a, t) ∧ (f a).outcome t = (.ok b, s') := by
  rw [outcome_bind]
  obtain ⟨r, t⟩ := p.outcome s
  cases r with
  | ok a =>
    constructor
    · exact fun h => ⟨a, t, rfl, h⟩
    · rintro ⟨a', t', h, h'⟩
      cases h
      exact h'
  | error e =>
    constructor
    · exact fun h => by cases h
    · rintro ⟨_, _, h, -⟩
      cases h

theorem bind_error {p : Lasting σ ε α} {s s' : σ} {e : ε} :
    (p >>= f).outcome s = (.error e, s') ↔ p.outcome s = (.error e, s') ∨
      ∃ a t, p.outcome s = (.ok a, t) ∧ (f a).outcome t = (.error e, s') := by
  rw [outcome_bind]
  obtain ⟨r, t⟩ := p.outcome s
  cases r with
  | ok a =>
    constructor
    · exact fun h => .inr ⟨a, t, rfl, h⟩
    · rintro (h | ⟨a', t', h, h'⟩)
      · cases h
      · cases h
        exact h'
  | error e' =>
    constructor
    · intro h
      cases h
      exact .inl rfl
    · rintro (h | ⟨_, _, h, -⟩)
      · cases h
        rfl
      · cases h

theorem pure_ok {a b : α} {s s' : σ} :
    (pure a : Lasting σ ε α).outcome s = (.ok b, s') ↔ b = a ∧ s' = s := by
  rw [outcome_pure, Prod.mk.injEq, Except.ok.injEq, eq_comm, eq_comm (a := s)]

theorem mapM_cons_ok {a : α} {as : List α} {bs : List β} {s s' : σ} :
    ((a :: as).mapM f).outcome s = (.ok bs, s') ↔ ∃ b t rest, (f a).outcome s = (.ok b, t) ∧
      (as.mapM f).outcome t = (.ok rest, s') ∧ bs = b :: rest := by
  rw [List.mapM_cons, bind_ok]
  constructor
  · rintro ⟨b, t, h, h'⟩
    obtain ⟨rest, t', hrest, hpure⟩ := bind_ok.mp h'
    obtain ⟨rfl, rfl⟩ := pure_ok.mp hpure
    exact ⟨b, t, rest, h, hrest, rfl⟩
  · rintro ⟨b, t, rest, h, hrest, rfl⟩
    exact ⟨b, t, h, bind_ok.mpr ⟨rest, s', hrest, pure_ok.mpr ⟨rfl, rfl⟩⟩⟩

theorem mapM_nil_ok {bs : List β} {s s' : σ} :
    (([] : List α).mapM f).outcome s = (.ok bs, s') ↔ bs = [] ∧ s' = s := by
  rw [List.mapM_nil, pure_ok]

def check (f : σ → Except ε α) : Lasting σ ε α := fun s => (f s, s)

theorem check_ok {f : σ → Except ε α} {a : α} {s s' : σ} :
    (check f : Lasting σ ε α).outcome s = (.ok a, s') ↔ f s = .ok a ∧ s' = s := by
  change (f s, s) = _ ↔ _
  rw [Prod.mk.injEq, eq_comm (a := s)]

/-- An atomic operation on a part of the state: what it leaves is taken over if it returns. -/
def transaction (view : τ → σ) (commit : σ → τ → τ) (p : Atomic σ ε α) : Lasting τ ε α := fun t =>
  match p (view t) with
  | .ok (a, s) => (.ok a, commit s t)
  | .error e => (.error e, t)

section

variable {view : τ → σ} {commit : σ → τ → τ} {p : Atomic σ ε α} {t t' : τ}

theorem outcome_transaction_ok {a : α} {s : σ} (h : p (view t) = .ok (a, s)) :
    (transaction view commit p).outcome t = (.ok a, commit s t) := by
  unfold outcome transaction
  rw [h]

theorem outcome_transaction_error {e : ε} (h : p (view t) = .error e) :
    (transaction view commit p).outcome t = (.error e, t) := by
  unfold outcome transaction
  rw [h]

theorem transaction_ok {a : α} : (transaction view commit p).outcome t = (.ok a, t') ↔
    ∃ s, p (view t) = .ok (a, s) ∧ t' = commit s t := by
  cases hp : p (view t) with
  | ok r =>
    obtain ⟨b, s⟩ := r
    rw [outcome_transaction_ok hp]
    constructor
    · rintro ⟨⟩
      exact ⟨s, rfl, rfl⟩
    · rintro ⟨s', h, rfl⟩
      cases h
      rfl
  | error e =>
    rw [outcome_transaction_error hp]
    constructor
    · rintro ⟨⟩
    · rintro ⟨_, ⟨⟩, -⟩

theorem transaction_error {e : ε} (h : (transaction view commit p).outcome t = (.error e, t')) :
    t' = t := by
  cases hp : p (view t) with
  | ok r =>
    obtain ⟨b, s⟩ := r
    rw [outcome_transaction_ok hp] at h
    cases h
  | error e' =>
    rw [outcome_transaction_error hp] at h
    cases h
    rfl

end

/-- From related states, two operations end alike, in related states. -/
def Similar (R : σ → τ → Prop) (p : Lasting σ ε α) (q : Lasting τ ε α) : Prop :=
  ∀ s t, R s t → (p.outcome s).1 = (q.outcome t).1 ∧ R (p.outcome s).2 (q.outcome t).2

namespace Similar

variable {R : σ → τ → Prop}

theorem pure (a : α) : Similar R (pure a : Lasting σ ε α) (pure a) := fun _ _ h => ⟨rfl, h⟩

theorem throw (e : ε) : Similar R (throw e : Lasting σ ε α) (throw e) := fun _ _ h => ⟨rfl, h⟩

theorem bind {p : Lasting σ ε α} {q : Lasting τ ε α}
    {g : α → Lasting τ ε β} (h : Similar R p q) (hf : ∀ a, Similar R (f a) (g a)) :
    Similar R (p >>= f) (q >>= g) := by
  intro s t hst
  rw [outcome_bind, outcome_bind]
  have hpq := h s t hst
  revert hpq
  obtain ⟨r, s'⟩ := p.outcome s
  obtain ⟨r', t'⟩ := q.outcome t
  rintro ⟨rfl, hrel⟩
  cases r with
  | ok a => exact hf a s' t' hrel
  | error e => exact ⟨rfl, hrel⟩

theorem mapM {l : List α} {g : α → Lasting τ ε β}
    (h : ∀ a ∈ l, Similar R (f a) (g a)) : Similar R (l.mapM f) (l.mapM g) := by
  induction l with
  | nil =>
    rw [List.mapM_nil, List.mapM_nil]
    exact .pure []
  | cons a l ih =>
    rw [List.mapM_cons, List.mapM_cons]
    exact (h a List.mem_cons_self).bind fun b =>
      (ih fun a' ha' => h a' (List.mem_cons_of_mem _ ha')).bind fun bs => .pure (b :: bs)

end Similar

end Lasting

end Varco
