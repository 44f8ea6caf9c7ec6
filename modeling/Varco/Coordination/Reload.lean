import Varco.Foundations.Run
import Varco.Foundations.Text

/-!
# Reloading a resource

`ReloadableResource`: calls of `start` and `reload` load the value concurrently, and each installs
what it has read when its loader returns. The lock of the swap is held across no `await`, so that
the swap, the notification of the subscribers and the return are one step.

A reload goes back if its loader has read the source before that of a reload that has already
returned. This is the only way (`never_back_iff`).
-/

namespace Varco

open Function List

namespace ReloadableResource

structure ReloadOutcome where
  changed : Bool
  generation : ℕ
  error : Option PyException := none

/-- How far a call of `_load_and_swap` is, with what its loader has read, and when. -/
inductive LoadState (T : Type)
  | idle
  | running (firstLoad : Bool)
  | read (firstLoad : Bool) (value : T) (time : ℕ)

/-- A call that has returned. -/
structure Returned where
  firstLoad : Bool
  outcome : ReloadOutcome
  readAt : ℕ

/-- It is a call of `reload` that has changed the value. -/
def Returned.Reloads (r : Returned) : Prop := r.firstLoad = false ∧ r.outcome.changed = true

/-- The resource, its calls and the source that its loader reads. `readAt` is when `_current` was
read, and `received` the last value that a callback has been called with since it subscribed. -/
structure Resource (L S T : Type) where
  name : String := ""
  current : Option T := none
  loaded : Bool := false
  generation : ℕ := 0
  subscribers : List S := []
  received : S → Option T := fun _ => none
  load : L → LoadState T := fun _ => .idle
  source : T
  time : ℕ := 0
  readAt : ℕ := 0
  returned : List Returned := []

/-- What happens next. A call of `start` loads for the first time, and one of `reload`, by hand or
on a watch event, does not. -/
inductive Move (L S T : Type)
  | change (value : T)
  | begin (l : L) (firstLoad : Bool)
  | read (l : L)
  | finish (l : L)
  | fail (l : L) (exc : PyException)
  | cancel (l : L)
  | subscribe (s : S)
  | unsubscribe (s : S)

variable {L S T : Type} [DecidableEq L] [DecidableEq S]

/-- `current` -/
def Resource.current? (r : Resource L S T) : Except PyException T :=
  match r.loaded, r.current with
  | true, some value => .ok value
  | _, _ => .error ⟨"ResourceNotLoadedError", "ReloadableResource(" ++ pyRepr r.name ++
      ") has no loaded value — call start() first."⟩

/-- The callbacks are called with the value. One that raises keeps no other from being called. -/
def notifySubscribers (subscribers : List S) (value : T) (received : S → Option T) :
    S → Option T :=
  subscribers.foldl (fun received s => update received s (some value)) received

/-- A call is now at `s`. -/
def Resource.setLoad (r : Resource L S T) (l : L) (s : LoadState T) : Resource L S T :=
  { r with load := update r.load l s, time := r.time + 1 }

def Resource.install (r : Resource L S T) (l : L) (firstLoad : Bool) (value : T) (time : ℕ) :
    Resource L S T :=
  { r.setLoad l .idle with
    current := some value
    loaded := true
    generation := r.generation + 1
    received := notifySubscribers r.subscribers value r.received
    readAt := time
    returned := r.returned ++ [⟨firstLoad, ⟨true, r.generation + 1, none⟩, time⟩] }

/-- The loader has raised: `start` raises too, and `reload` returns an outcome. -/
def Resource.failed (r : Resource L S T) (l : L) (firstLoad : Bool) (exc : PyException) :
    Resource L S T :=
  if firstLoad then r.setLoad l .idle
  else { r.setLoad l .idle with
    returned := r.returned ++ [⟨false, ⟨false, r.generation, some exc⟩, r.time⟩] }

def step (r : Resource L S T) : Move L S T → Option (Resource L S T)
  | .change value => some { r with source := value, time := r.time + 1 }
  | .begin l firstLoad =>
    match r.load l with
    | .idle => some (r.setLoad l (.running firstLoad))
    | _ => none
  | .read l =>
    match r.load l with
    | .running firstLoad => some (r.setLoad l (.read firstLoad r.source r.time))
    | _ => none
  | .finish l =>
    match r.load l with
    | .read firstLoad value time => some (r.install l firstLoad value time)
    | _ => none
  | .fail l exc =>
    match r.load l with
    | .idle => none
    | .running firstLoad => some (r.failed l firstLoad exc)
    | .read firstLoad _ _ => some (r.failed l firstLoad exc)
  | .cancel l => some (r.setLoad l .idle)
  | .subscribe s =>
    some { r with
      subscribers := r.subscribers ++ [s]
      received := if s ∈ r.subscribers then r.received else update r.received s none
      time := r.time + 1 }
  | .unsubscribe s => some { r with subscribers := r.subscribers.erase s, time := r.time + 1 }

def Step (r : Resource L S T) (a : Move L S T) (r' : Resource L S T) : Prop := step r a = some r'

variable {r r' : Resource L S T} {a : Move L S T} {labels : List (Move L S T)} {source : T}

theorem step_det (r : Resource L S T) (a : Move L S T) (u u' : Resource L S T) (h : Step r a u)
    (h' : Step r a u') : u = u' :=
  Option.some.inj (Eq.trans (Eq.symm h) h')

def Move.isFinish : Move L S T → Bool
  | .finish _ => true
  | _ => false

/-- What a step leaves as it was. -/
structure Quiet (r r' : Resource L S T) : Prop where
  name : r'.name = r.name
  current : r'.current = r.current
  loaded : r'.loaded = r.loaded
  generation : r'.generation = r.generation
  readAt : r'.readAt = r.readAt
  returned : ∀ x ∈ r'.returned, x.Reloads → x ∈ r.returned

omit [DecidableEq S] in
theorem quiet_setLoad (r : Resource L S T) (l : L) (s : LoadState T) : Quiet r (r.setLoad l s) :=
  ⟨rfl, rfl, rfl, rfl, rfl, fun _ h _ => h⟩

omit [DecidableEq S] in
theorem quiet_failed (r : Resource L S T) (l : L) (firstLoad : Bool) (exc : PyException) :
    Quiet r (r.failed l firstLoad exc) := by
  unfold Resource.failed
  split_ifs
  · exact quiet_setLoad r l .idle
  · refine ⟨rfl, rfl, rfl, rfl, rfl, fun x hx hreloads => ?_⟩
    rcases mem_append.mp hx with hx | hx
    · exact hx
    · rw [mem_singleton.mp hx] at hreloads
      cases hreloads.2

omit [DecidableEq S] in
@[simp] theorem subscribers_failed (r : Resource L S T) (l : L) (firstLoad : Bool)
    (exc : PyException) : (r.failed l firstLoad exc).subscribers = r.subscribers := by
  unfold Resource.failed
  split_ifs <;> rfl

omit [DecidableEq S] in
@[simp] theorem received_failed (r : Resource L S T) (l : L) (firstLoad : Bool)
    (exc : PyException) : (r.failed l firstLoad exc).received = r.received := by
  unfold Resource.failed
  split_ifs <;> rfl

/-- What a callback has been called with, it had been called with before. -/
def Recalls (r r' : Resource L S T) : Prop :=
  ∀ s ∈ r'.subscribers, ∀ v, r'.received s = some v → s ∈ r.subscribers ∧ r.received s = some v

/-- **What a step can do**: a load completes, or the value stays, and callbacks come and go. -/
theorem step_cases (h : Step r a r') :
    (∃ l firstLoad value time, a = .finish l ∧ r.load l = .read firstLoad value time ∧
      r' = r.install l firstLoad value time) ∨
    a.isFinish = false ∧ Quiet r r' ∧ Recalls r r' := by
  unfold Step at h
  cases a with
  | change value =>
    cases h
    exact .inr ⟨rfl, ⟨rfl, rfl, rfl, rfl, rfl, fun _ h _ => h⟩, fun _ hs _ hv => ⟨hs, hv⟩⟩
  | begin l firstLoad =>
    rw [step] at h
    cases hl : r.load l <;> rw [hl] at h <;> cases h
    exact .inr ⟨rfl, quiet_setLoad .., fun _ hs _ hv => ⟨hs, hv⟩⟩
  | read l =>
    rw [step] at h
    cases hl : r.load l <;> rw [hl] at h <;> cases h
    exact .inr ⟨rfl, quiet_setLoad .., fun _ hs _ hv => ⟨hs, hv⟩⟩
  | finish l =>
    rw [step] at h
    cases hl : r.load l <;> rw [hl] at h <;> cases h
    exact .inl ⟨_, _, _, _, rfl, hl, rfl⟩
  | fail l exc =>
    rw [step] at h
    cases hl : r.load l <;> rw [hl] at h <;> cases h <;>
      exact .inr ⟨rfl, quiet_failed .., fun _ hs _ hv =>
        ⟨by rwa [subscribers_failed] at hs, by rwa [received_failed] at hv⟩⟩
  | cancel l =>
    cases h
    exact .inr ⟨rfl, quiet_setLoad .., fun _ hs _ hv => ⟨hs, hv⟩⟩
  | subscribe s =>
    cases h
    refine .inr ⟨rfl, ⟨rfl, rfl, rfl, rfl, rfl, fun _ h _ => h⟩, fun s' hs' v hv => ?_⟩
    dsimp only at hs' hv
    by_cases hs : s ∈ r.subscribers
    · rw [if_pos hs] at hv
      rcases mem_append.mp hs' with hs' | hs'
      · exact ⟨hs', hv⟩
      · exact ⟨mem_singleton.mp hs' ▸ hs, hv⟩
    · rw [if_neg hs] at hv
      by_cases heq : s' = s
      · rw [heq, update_self] at hv
        cases hv
      · rw [update_of_ne heq] at hv
        rcases mem_append.mp hs' with hs' | hs'
        · exact ⟨hs', hv⟩
        · exact absurd (mem_singleton.mp hs') heq
  | unsubscribe s =>
    cases h
    exact .inr ⟨rfl, ⟨rfl, rfl, rfl, rfl, rfl, fun _ h _ => h⟩, fun _ hs' _ hv =>
      ⟨mem_of_mem_erase hs', hv⟩⟩

/-! ## Never back -/

/-- What is asked of a state, after the steps `labels`. -/
structure NeverBack (labels : List (Move L S T)) (r : Resource L S T) : Prop where
  current : ∀ x ∈ r.returned, x.Reloads → x.readAt ≤ r.readAt
  generation : r.generation = labels.countP (·.isFinish)
  subscribers : (∀ l, r.load l = .idle) → ∀ s ∈ r.subscribers, ∀ v, r.received s = some v →
    r.current = some v

/-- A load that completes has read the source no earlier than a reload that has returned. -/
def InOrder (r : Resource L S T) (a : Move L S T) : Prop :=
  match a with
  | .finish l =>
    match r.load l with
    | .read _ _ time => ∀ x ∈ r.returned, x.Reloads → x.readAt ≤ time
    | _ => True
  | _ => True

instance (r : Resource L S T) (a : Move L S T) : Decidable (InOrder r a) := by
  unfold InOrder Returned.Reloads
  repeat' split
  all_goals infer_instance

/-- What holds throughout: the subscribers know the value at any time. -/
structure Invariant (labels : List (Move L S T)) (r : Resource L S T) : Prop where
  current : ∀ x ∈ r.returned, x.Reloads → x.readAt ≤ r.readAt
  generation : r.generation = labels.countP (·.isFinish)
  subscribers : ∀ s ∈ r.subscribers, ∀ v, r.received s = some v → r.current = some v

omit [DecidableEq L] [DecidableEq S] in
theorem Invariant.neverBack (h : Invariant labels r) : NeverBack labels r :=
  ⟨h.current, h.generation, fun _ => h.subscribers⟩

theorem notifySubscribers_of_mem {subscribers : List S} {s : S} (h : s ∈ subscribers) (value : T)
    (received : S → Option T) : notifySubscribers subscribers value received s = some value := by
  unfold notifySubscribers
  induction subscribers using List.reverseRecOn with
  | nil => exact absurd h not_mem_nil
  | append_singleton subscribers s' ih =>
    rw [foldl_append, foldl_cons, foldl_nil]
    by_cases heq : s = s'
    · rw [heq, update_self]
    · rw [update_of_ne heq]
      rcases mem_append.mp h with h | h
      · exact ih h
      · exact absurd (mem_singleton.mp h) heq

theorem Invariant.step (h : Invariant labels r) (horder : InOrder r a) (hstep : Step r a r') :
    Invariant (labels ++ [a]) r' := by
  obtain ⟨l, firstLoad, value, time, rfl, hl, rfl⟩ | ⟨hfinish, hquiet, hrecalls⟩ := step_cases hstep
  · unfold InOrder at horder
    dsimp only at horder
    rw [hl] at horder
    refine ⟨fun x hx hreloads => ?_, ?_, fun s hs v hv => ?_⟩
    · rcases mem_append.mp hx with hx | hx
      · exact horder x hx hreloads
      · rw [mem_singleton.mp hx]
        exact le_rfl
    · rw [countP_append, ← h.generation]
      rfl
    · exact (notifySubscribers_of_mem hs value r.received).symm.trans hv
  · refine ⟨fun x hx hreloads => ?_, ?_, fun s hs v hv => ?_⟩
    · rw [hquiet.readAt]
      exact h.current x (hquiet.returned x hx hreloads) hreloads
    · rw [hquiet.generation, h.generation, countP_append, countP_singleton, if_neg]
      · rfl
      · rw [hfinish]
        exact Bool.false_ne_true
    · obtain ⟨hmem, hreceived⟩ := hrecalls s hs v hv
      rw [hquiet.current]
      exact h.subscribers s hmem v hreceived

/-- A load that completes out of order takes the value back. -/
theorem inOrder_of_neverBack {labels' : List (Move L S T)} (hstep : Step r a r')
    (h : NeverBack labels' r') : InOrder r a := by
  obtain ⟨l, firstLoad, value, time, rfl, hl, rfl⟩ | ⟨hfinish, -, -⟩ := step_cases hstep
  · unfold InOrder
    dsimp only
    rw [hl]
    exact fun x hx => h.current x (mem_append_left _ hx)
  · unfold InOrder
    cases a with
    | finish l => cases hfinish
    | _ => exact trivial

/-- **A reload never goes back iff the loads complete in order.** A load that fails changes nothing,
in any case. -/
theorem never_back_iff (name : String) (source : T) :
    (∀ (r r' : Resource L S T) l exc, Step r (.fail l exc) r' →
      r'.current? = r.current? ∧ r'.generation = r.generation) ∧
    ∀ (labels : List (Move L S T)) (r : Resource L S T), Run Step { name, source } labels r →
      ((∀ l₁ l₂ u, labels = l₁ ++ l₂ → Run Step { name, source } l₁ u → NeverBack l₁ u) ↔
        ∀ l₁ a l₂ u, labels = l₁ ++ a :: l₂ → Run Step { name, source } l₁ u → InOrder u a) := by
  refine ⟨fun r r' l exc hstep => ?_, fun labels r hrun => ⟨fun h => ?_, fun h => ?_⟩⟩
  · obtain ⟨_, _, _, _, heq, _⟩ | ⟨-, hquiet, -⟩ := step_cases hstep
    · cases heq
    · refine ⟨?_, hquiet.generation⟩
      unfold Resource.current?
      rw [hquiet.current, hquiet.loaded, hquiet.name]
  · rintro l₁ a l₂ u rfl hu
    obtain ⟨t, t', ht, hstep, -⟩ := hrun.at_label
    obtain rfl := hu.det step_det ht
    exact inOrder_of_neverBack hstep (h (l₁ ++ [a]) l₂ t' (by simp) (ht.append (.single hstep)))
  · rintro l₁ l₂ u rfl hu
    have hguarded : Guarded Step (fun _ => InOrder) { name, source } l₁ u :=
      .of_run hu fun l₃ a l₄ v heq hv => h l₃ a (l₄ ++ l₂) v (by rw [heq]; simp) hv
    have hinv : Invariant l₁ u := hguarded.invariant (I := Invariant)
      ⟨fun _ hx => absurd hx not_mem_nil, rfl, fun _ hs => absurd hs not_mem_nil⟩
      fun _ _ _ _ _ horder hstep hinv => hinv.step horder hstep
    exact hinv.neverBack

def beginRead (l : Bool) : List (Move Bool Unit ℕ) := [.begin l false, .read l]

/-- A load, and a reload of what the source has changed to, complete in the order in which they have
read. -/
def readTwice : List (Move Bool Unit ℕ) :=
  .subscribe () :: beginRead true ++ Move.change 2 :: beginRead false ++
    [Move.finish true, .finish false]

theorem never_back_readTwice : ∃ r : Resource Bool Unit ℕ,
    Run Step { name := "ca", source := 1 } readTwice r ∧ r.current? = .ok 2 ∧
      r.received () = some 2 ∧ NeverBack readTwice r := by
  have hguard : Guarded Step (fun _ r a => InOrder r a)
      ({ name := "ca", source := 1 } : Resource Bool Unit ℕ) readTwice _ :=
    Guarded.nil.foldlM (fun _ _ _ h => h) (fun _ _ _ h => h)
      (Option.some_get (by decide +kernel)).symm
  have hrun := hguard.run
  refine ⟨_, hrun, by decide +kernel, by decide +kernel, ((never_back_iff "ca" 1).2 _ _ hrun).mpr
    (fun l₁ a l₂ u heq hu => ?_) _ [] _ (by simp) hrun⟩
  obtain ⟨t, -, ht, horder, -⟩ := (heq ▸ hguard).at_label
  obtain rfl := hu.det step_det ht.run
  exact horder

/-- **A slow reload takes the value back**: it has read 1, and completes after one that has read 2.
-/
theorem slow_reload_goes_back :
    ¬ ∀ (name : String) (source : ℕ) (labels : List (Move Bool Unit ℕ)) (r : Resource Bool Unit ℕ),
      Run Step { name, source } labels r → NeverBack labels r := by
  intro h
  have hrun : Run Step { name := "ca", source := 1 }
      (beginRead true ++ [Move.change 2] ++ beginRead false ++
        [Move.finish false, .finish true]) _ :=
    .cons rfl (.cons rfl (.cons rfl (.cons rfl (.cons rfl (.cons rfl (.single rfl))))))
  have hback := h "ca" 1 _ _ hrun
  have hle : 4 ≤ 1 := hback.current _ mem_cons_self ⟨rfl, rfl⟩
  omega

end ReloadableResource

end Varco
