import Varco.Cache.Singleflight

/-!
# Flights

A task is in one of four phases between two suspensions: it has not started, it leads a flight, it
follows one, or it has ended. Every step of the loop moves one task between phases
(`moves_of_step`), and the table of the slots says at all times which flights have a leader
(`Flying`). That the loader has ended, that the slot is empty and that the future is done all become
true in one step, since the lock is free whenever a task gets to it.
-/

namespace Varco

namespace Singleflight

open EventLoop

variable {V ι : Type} [DecidableEq ι] {clients : ι → FlightClient}

/-! ## What can be seen of a loop -/

def Awaits (P : FlightPool V ι) (i : ι) (c : FlightCmd V) : Prop := ∃ k, P.prog i = .cmd c k

def loaded : Wake (Except Exc V) → Except Exc V
  | .resume r => r
  | .cancel => .error .cancelled

/-- At this event the loader of the flight `future` ends with `r`. -/
def Ends (P : FlightPool V ι) (e : FlightEvent V ι) (key : String) (future : ℕ) (r : Except Exc V) :
    Prop :=
  Awaits P e.task (.load key) ∧ P.shared.inFlight.get? key = some future ∧ loaded e.wake = r

/-- In the run, the loader of the flight `future` has ended with `r`. -/
def Landed (clients : ι → FlightClient) (l : List (FlightEvent V ι)) (key : String) (future : ℕ)
    (r : Except Exc V) : Prop :=
  ∃ l₁ e l₂ P, l = l₁ ++ e :: l₂ ∧ Run FlightStep (pool V clients) l₁ P ∧ Ends P e key future r

/-- **What a run keeps**: nobody waits for the lock; one loader for a key; a follower waits for a
flight of its key whose loader is running, or that has ended and whose outcome it then gets; a
flight that ends leaves its slot empty; and the future in a slot is that of a flight whose loader is
running. -/
structure Coalesces (clients : ι → FlightClient) (l : List (FlightEvent V ι)) (P : FlightPool V ι) :
    Prop where
  unlocked : P.shared.locked = false ∧ ∀ i, ¬Awaits P i .acquire
  one_loader : ∀ i j key, Awaits P i (.load key) → Awaits P j (.load key) → i = j
  live : ∀ i future, Awaits P i (.shield future) →
    (∃ j, Awaits P j (.load (clients i).key) ∧
      P.shared.inFlight.get? (clients i).key = some future) ∨
    ∃ r, Landed clients l (clients i).key future r
  wakes : ∀ i future r, Awaits P i (.shield future) → Landed clients l (clients i).key future r →
    ∀ x, ∃ P', FlightStep P ⟨i, .resume x⟩ P'
  outcome : ∀ e P' future, FlightStep P e P' → Awaits P e.task (.shield future) →
    e.wake ≠ .cancel → ∃ r, Landed clients l (clients e.task).key future r ∧
      P'.prog e.task = .ret ((clients e.task).finish (r.map (·, false)))
  freed : ∀ e P' key future r, FlightStep P e P' → Ends P e key future r →
    P'.shared.inFlight.get? key = none ∧
      P'.prog e.task = .ret ((clients e.task).finish (r.map (·, true)))
  slot_live : ∀ key future, P.shared.inFlight.get? key = some future →
    (∃ j, Awaits P j (.load key)) ∧ ∀ key' r, ¬Landed clients l key' future r
  joins : ∀ e P' future, FlightStep P e P' → ¬Awaits P e.task (.shield future) →
    Awaits P' e.task (.shield future) → P.shared.inFlight.get? (clients e.task).key = some future

/-! ## Phases -/

/-- Where a task is suspended, or what it has ended with. -/
inductive Phase (V : Type)
  | waiting
  | leading (future : ℕ)
  | following (future : ℕ)
  | ended (r : Except Exc (Option (V × Bool)))

def Phase.prog (client : FlightClient) :
    Phase V → Prog (FlightCmd V) FlightCmd.Res (Except Exc (Option (V × Bool)))
  | .waiting => client.run.run
  | .leading future => (client.around (lead client.key future)).run
  | .following future => (client.around (follow future)).run
  | .ended r => .ret r

def InPhases (clients : ι → FlightClient) (phase : ι → Phase V) (P : FlightPool V ι) : Prop :=
  ∀ i, P.prog i = (phase i).prog (clients i)

/-- How one task moves. -/
inductive Moves (clients : ι → FlightClient) (phase : ι → Phase V) (s : Flights V) :
    FlightEvent V ι → (ι → Phase V) → Flights V → Prop
  | aborts (i : ι) (h : phase i = .waiting) :
      Moves clients phase s ⟨i, .cancel⟩
        (Function.update phase i (.ended ((clients i).finish (.error .cancelled)))) s
  | leads (i : ι) (x : Except Exc V) (h : phase i = .waiting)
      (hslot : s.inFlight.get? (clients i).key = none) :
      Moves clients phase s ⟨i, .resume x⟩ (Function.update phase i (.leading s.futures.length))
        { s with
          inFlight := s.inFlight.set (clients i).key s.futures.length,
          futures := s.futures ++ [none] }
  | joins (i : ι) (x : Except Exc V) (future : ℕ) (h : phase i = .waiting)
      (hslot : s.inFlight.get? (clients i).key = some future) :
      Moves clients phase s ⟨i, .resume x⟩ (Function.update phase i (.following future)) s
  | lands (i : ι) (w : Wake (Except Exc V)) (future : ℕ) (h : phase i = .leading future) :
      Moves clients phase s ⟨i, w⟩
        (Function.update phase i (.ended ((clients i).finish ((loaded w).map (·, true)))))
        { s with
          inFlight := s.inFlight.erase (clients i).key,
          futures := s.futures.set future (some (loaded w)) }
  | returns (i : ι) (x : Except Exc V) (future : ℕ) (r : Except Exc V)
      (h : phase i = .following future) (hdone : s.outcome future = some r) :
      Moves clients phase s ⟨i, .resume x⟩
        (Function.update phase i (.ended ((clients i).finish (r.map (·, false))))) s
  | leaves (i : ι) (future : ℕ) (h : phase i = .following future) :
      Moves clients phase s ⟨i, .cancel⟩
        (Function.update phase i (.ended ((clients i).finish (.error .cancelled)))) s

/-- The lock is free, and the slots are those of the flights that are led. -/
structure Flying (clients : ι → FlightClient) (phase : ι → Phase V) (s : Flights V) : Prop where
  free : s.locked = false
  slot_of_leading : ∀ i future, phase i = .leading future →
    s.inFlight.get? (clients i).key = some future ∧ s.futures[future]? = some none
  leading_of_slot : ∀ key future, s.inFlight.get? key = some future →
    ∃ i, (clients i).key = key ∧ phase i = .leading future
  unique : ∀ i j future, phase i = .leading future → phase j = .leading future → i = j

section

variable {phase phase' : ι → Phase V} {s s' : Flights V} {P P' : FlightPool V ι}
  {e : FlightEvent V ι} {client : FlightClient} {future : ℕ}

omit [DecidableEq ι]

theorem finish_cancelled :
    client.finish (.error .cancelled : Except Exc (V × Bool)) = .error .cancelled := by
  cases client <;> rfl

theorem outcome_of_pending (h : s.futures[future]? = some none) : s.outcome future = none := by
  simp [Flights.outcome, h]

/-- A task that starts leads a new flight, if the slot of its key is empty. -/
theorem drive_start_lead (hfree : s.locked = false) (hslot : s.inFlight.get? client.key = none) :
    drive Flights.now (client.around (Singleflight.do client.key)).run s =
      ((Phase.leading s.futures.length).prog client, { s with
        inFlight := s.inFlight.set client.key s.futures.length,
        futures := s.futures ++ [none] }) :=
  drive_bind_cmd (drive_do_lead hfree hslot)

/-- A task that starts follows the flight that it finds. -/
theorem drive_start_follow (hfree : s.locked = false)
    (hslot : s.inFlight.get? client.key = some future) (hpending : s.outcome future = none) :
    drive Flights.now (client.around (Singleflight.do client.key)).run s =
      ((Phase.following future).prog client, s) :=
  drive_bind_cmd (drive_do_follow hfree hslot hpending)

theorem drive_leading (hfree : s.locked = false) (hpending : s.outcome future = none) :
    ∃ k, (Phase.leading future).prog client = .cmd (.load client.key) k ∧
      ∀ r : Except Exc V,
        drive Flights.now (k r) s = (.ret (client.finish (r.map (·, true))), { s with
          inFlight := s.inFlight.erase client.key, futures := s.futures.set future (some r) }) := by
  obtain ⟨k, hk, hdrive⟩ := drive_lead hfree hpending
  refine ⟨fun r => k r >>= fun r => pure (client.finish r), ?_, fun r => ?_⟩
  · change (lead client.key future).run >>= _ = _
    rw [hk]
    rfl
  · exact drive_bind_ret (hdrive r)

/-- **What a step does**: one task moves. -/
theorem moves_of_step [DecidableEq ι] (hprog : InPhases clients phase P)
    (hfly : Flying clients phase P.shared) (hst : FlightStep P e P') :
    ∃ phase', Moves clients phase P.shared e phase' P'.shared ∧ InPhases clients phase' P' := by
  obtain ⟨c, k, r, s, hk, hwake, rfl⟩ := hst.inv
  obtain ⟨i, w⟩ := e
  -- the new phase of the task is what it is driven to
  have hmove : ∀ (ph : Phase V) (s' : Flights V),
      drive Flights.now (k r) s = (ph.prog (clients i), s') →
      Moves clients phase P.shared ⟨i, w⟩ (Function.update phase i ph) s' →
      ∃ phase', Moves clients phase P.shared ⟨i, w⟩ phase' (drive Flights.now (k r) s).2 ∧
        InPhases clients phase'
          ⟨(drive Flights.now (k r) s).2,
            Function.update P.prog i (drive Flights.now (k r) s).1⟩ := by
    intro ph s' hdrive hmoves
    rw [hdrive]
    refine ⟨_, hmoves, fun j => ?_⟩
    by_cases hj : j = i
    · subst hj
      simp
    · simpa [hj] using hprog j
  rw [hprog i] at hk
  cases hphase : phase i with
  | waiting =>
    rw [hphase] at hk
    cases hk
    cases w with
    | cancel =>
      cases hwake
      refine hmove _ _ ?_ (.aborts i hphase)
      rw [finish_cancelled]
      rfl
    | resume x =>
      cases hwake
      cases hslot : P.shared.inFlight.get? (clients i).key with
      | none => exact hmove _ _ (drive_start_lead hfly.free hslot) (.leads i x hphase hslot)
      | some future =>
        obtain ⟨j, -, hj⟩ := hfly.leading_of_slot _ _ hslot
        have hpending := outcome_of_pending (hfly.slot_of_leading j future hj).2
        exact hmove _ _ (drive_start_follow hfly.free hslot hpending)
          (.joins i x future hphase hslot)
  | leading future =>
    have hpending := outcome_of_pending (hfly.slot_of_leading i future hphase).2
    obtain ⟨k', hk', hdrive⟩ := drive_leading hfly.free hpending
    rw [hphase, hk'] at hk
    cases hk
    cases w with
    | cancel =>
      cases hwake
      exact hmove (.ended _) _ (hdrive _) (.lands i .cancel future hphase)
    | resume x =>
      cases hwake
      exact hmove (.ended _) _ (hdrive _) (.lands i (.resume _) future hphase)
  | following future =>
    rw [hphase] at hk
    cases hk
    cases w with
    | cancel =>
      cases hwake
      exact hmove (.ended _) _ rfl (.leaves i future hphase)
    | resume x =>
      obtain ⟨r', hdone, hr⟩ := Option.map_eq_some_iff.mp hwake
      cases hr
      refine hmove (.ended _) _ ?_ (.returns i x future r hphase hdone)
      cases r <;> rfl
  | ended r' =>
    rw [hphase] at hk
    cases hk

/-- A task that does not lead, and does not lead after it has moved, leaves the flights alone. -/
theorem Flying.update [DecidableEq ι] (hfly : Flying clients phase s) {i : ι} {ph : Phase V}
    (hold : ∀ f, phase i ≠ .leading f) (hnew : ∀ f, ph ≠ .leading f) :
    Flying clients (Function.update phase i ph) s := by
  have hleading : ∀ j f, Function.update phase i ph j = .leading f ↔ phase j = .leading f := by
    intro j f
    by_cases hj : j = i
    · subst hj
      simp [hold, hnew]
    · simp [hj]
  refine ⟨hfly.free, ?_, ?_, ?_⟩
  · intro j f hj
    exact hfly.slot_of_leading j f ((hleading j f).mp hj)
  · intro key f hslot
    obtain ⟨j, hkey, hj⟩ := hfly.leading_of_slot key f hslot
    exact ⟨j, hkey, (hleading j f).mpr hj⟩
  · intro j j' f hj hj'
    exact hfly.unique j j' f ((hleading j f).mp hj) ((hleading j' f).mp hj')

theorem Flying.leads [DecidableEq ι] (hfly : Flying clients phase s) {i : ι}
    (hwaiting : phase i = .waiting) (hslot : s.inFlight.get? (clients i).key = none) :
    Flying clients (Function.update phase i (.leading s.futures.length))
      { s with
        inFlight := s.inFlight.set (clients i).key s.futures.length,
        futures := s.futures ++ [none] } := by
  -- the futures of the other flights are older
  have hlt : ∀ j f, phase j = .leading f → f < s.futures.length := by
    intro j f hj
    have hpending := (hfly.slot_of_leading j f hj).2
    exact (List.getElem?_eq_some_iff.mp hpending).1
  have hcases : ∀ j f, Function.update phase i (.leading s.futures.length) j = .leading f →
      j = i ∧ f = s.futures.length ∨ j ≠ i ∧ phase j = .leading f := by
    intro j f hj
    by_cases hji : j = i
    · subst hji
      simp only [Function.update_self, Phase.leading.injEq] at hj
      exact .inl ⟨rfl, hj.symm⟩
    · simp only [ne_eq, hji, not_false_eq_true, Function.update_of_ne] at hj
      exact .inr ⟨hji, hj⟩
  refine ⟨hfly.free, ?_, ?_, ?_⟩
  · intro j f hj
    rcases hcases j f hj with ⟨rfl, rfl⟩ | ⟨hne, hj⟩
    · exact ⟨Dict.get?_set_self .., by simp⟩
    · obtain ⟨hslotj, hpending⟩ := hfly.slot_of_leading j f hj
      have hkey : (clients j).key ≠ (clients i).key := by
        intro hkey
        rw [hkey, hslot] at hslotj
        cases hslotj
      refine ⟨?_, ?_⟩
      · exact (Dict.get?_set ..).trans ((if_neg hkey).trans hslotj)
      · exact (List.getElem?_append_left (hlt j f hj)).trans hpending
  · intro key f hget
    simp only [Dict.get?_set] at hget
    split at hget
    case isTrue hkey =>
      cases hget
      exact ⟨i, hkey.symm, by simp⟩
    case isFalse hkey =>
      obtain ⟨j, hj, hlead⟩ := hfly.leading_of_slot key f hget
      refine ⟨j, hj, ?_⟩
      have hne : j ≠ i := by
        rintro rfl
        exact hkey hj.symm
      simpa [hne] using hlead
  · intro j j' f hj hj'
    rcases hcases j f hj with ⟨rfl, rfl⟩ | ⟨-, hold⟩
    · rcases hcases j' _ hj' with ⟨rfl, -⟩ | ⟨-, hold'⟩
      · rfl
      · exact absurd (hlt j' _ hold') (lt_irrefl _)
    · rcases hcases j' f hj' with ⟨rfl, rfl⟩ | ⟨-, hold'⟩
      · exact absurd (hlt j _ hold) (lt_irrefl _)
      · exact hfly.unique j j' f hold hold'

theorem Flying.lands [DecidableEq ι] (hfly : Flying clients phase s) {i : ι} {f : ℕ}
    (hlead : phase i = .leading f) (r : Except Exc V) (ph : Phase V) (hnew : ∀ f, ph ≠ .leading f) :
    Flying clients (Function.update phase i ph)
      { s with
        inFlight := s.inFlight.erase (clients i).key, futures := s.futures.set f (some r) } := by
  have hcases : ∀ j f', Function.update phase i ph j = .leading f' →
      j ≠ i ∧ phase j = .leading f' := by
    intro j f' hj
    by_cases hji : j = i
    · subst hji
      rw [Function.update_self] at hj
      exact absurd hj (hnew f')
    · simp only [ne_eq, hji, not_false_eq_true, Function.update_of_ne] at hj
      exact ⟨hji, hj⟩
  have hslot := (hfly.slot_of_leading i f hlead).1
  refine ⟨hfly.free, ?_, ?_, ?_⟩
  · intro j f' hj
    obtain ⟨hne, hj⟩ := hcases j f' hj
    obtain ⟨hslotj, hpending⟩ := hfly.slot_of_leading j f' hj
    have hf : f ≠ f' := by
      rintro rfl
      exact hne (hfly.unique j i f hj hlead)
    have hkey : (clients j).key ≠ (clients i).key := by
      intro hkey
      rw [hkey, hslot] at hslotj
      exact hf (Option.some.inj hslotj)
    refine ⟨?_, ?_⟩
    · exact (Dict.get?_erase ..).trans ((if_neg hkey).trans hslotj)
    · exact (List.getElem?_set_ne hf).trans hpending
  · intro key f' hget
    simp only [Dict.get?_erase] at hget
    split at hget
    case isTrue => cases hget
    case isFalse hkey =>
      obtain ⟨j, hj, hlead'⟩ := hfly.leading_of_slot key f' hget
      refine ⟨j, hj, ?_⟩
      have hne : j ≠ i := by
        rintro rfl
        exact hkey hj.symm
      simpa [hne] using hlead'
  · intro j j' f' hj hj'
    exact hfly.unique j j' f' (hcases j f' hj).2 (hcases j' f' hj').2

/-- **A move keeps the flights.** -/
theorem Moves.flying [DecidableEq ι] (h : Moves clients phase s e phase' s')
    (hfly : Flying clients phase s) : Flying clients phase' s' := by
  cases h with
  | aborts i hphase => exact hfly.update (by simp [hphase]) (by simp)
  | leads i x hphase hslot => exact hfly.leads hphase hslot
  | joins i x future hphase hslot => exact hfly.update (by simp [hphase]) (by simp)
  | lands i w future hphase => exact hfly.lands hphase _ _ (by simp)
  | returns i x future r hphase hdone => exact hfly.update (by simp [hphase]) (by simp)
  | leaves i future hphase => exact hfly.update (by simp [hphase]) (by simp)

end

section

variable {phase phase' : ι → Phase V} {s s' : Flights V} {P P' : FlightPool V ι}
  {e : FlightEvent V ι} {l l₁ l₂ : List (FlightEvent V ι)} {key : String} {future : ℕ}
  {r : Except Exc V}

section

variable (hprog : InPhases clients phase P)

include hprog

omit [DecidableEq ι] in
theorem awaits_load {i : ι} :
    Awaits P i (.load key) ↔ key = (clients i).key ∧ ∃ f, phase i = .leading f := by
  unfold Awaits
  rw [hprog i]
  constructor
  · rintro ⟨k, hk⟩
    cases hphase : phase i with
    | leading f =>
      rw [hphase] at hk
      cases hk
      exact ⟨rfl, f, rfl⟩
    | waiting => rw [hphase] at hk; cases hk
    | following f => rw [hphase] at hk; cases hk
    | ended r => rw [hphase] at hk; cases hk
  · rintro ⟨rfl, f, hphase⟩
    rw [hphase]
    exact ⟨_, rfl⟩

omit [DecidableEq ι] in
theorem awaits_shield {i : ι} : Awaits P i (.shield future) ↔ phase i = .following future := by
  unfold Awaits
  rw [hprog i]
  constructor
  · rintro ⟨k, hk⟩
    cases hphase : phase i with
    | following f =>
      rw [hphase] at hk
      cases hk
      rfl
    | waiting => rw [hphase] at hk; cases hk
    | leading f => rw [hphase] at hk; cases hk
    | ended r => rw [hphase] at hk; cases hk
  · intro hphase
    rw [hphase]
    exact ⟨_, rfl⟩

omit [DecidableEq ι] in
theorem not_awaits_acquire (i : ι) : ¬Awaits P i .acquire := by
  unfold Awaits
  rw [hprog i]
  rintro ⟨k, hk⟩
  cases hphase : phase i with
  | waiting => rw [hphase] at hk; cases hk
  | leading f => rw [hphase] at hk; cases hk
  | following f => rw [hphase] at hk; cases hk
  | ended r => rw [hphase] at hk; cases hk

omit [DecidableEq ι] in
theorem leading_of_ends (hfly : Flying clients phase P.shared) (h : Ends P e key future r) :
    key = (clients e.task).key ∧ phase e.task = .leading future ∧ loaded e.wake = r := by
  obtain ⟨hawaits, hslot, hr⟩ := h
  obtain ⟨rfl, f, hphase⟩ := (awaits_load hprog).mp hawaits
  have hslot' := (hfly.slot_of_leading e.task f hphase).1
  cases hslot.symm.trans hslot'
  exact ⟨rfl, hphase, hr⟩

end

theorem Landed.snoc (h : Landed clients l key future r) (e : FlightEvent V ι) :
    Landed clients (l ++ [e]) key future r := by
  obtain ⟨l₁, e', l₂, P, rfl, hrun, hends⟩ := h
  exact ⟨l₁, e', l₂ ++ [e], P, by simp, hrun, hends⟩

theorem Landed.snoc_inv (h : Landed clients (l ++ [e]) key future r)
    (hl : Run FlightStep (pool V clients) l P) :
    Landed clients l key future r ∨ Ends P e key future r := by
  obtain ⟨l₁, e', l₂, P₁, hsplit, hrun, hends⟩ := h
  rcases List.eq_nil_or_concat l₂ with rfl | ⟨l₃, e₃, rfl⟩
  · obtain ⟨rfl, he⟩ := List.append_inj' hsplit rfl
    cases he
    have hdet := hl.det (fun _ _ _ _ h₁ h₂ => h₁.det h₂) hrun
    subst hdet
    exact .inr hends
  · refine .inl ⟨l₁, e', l₃, P₁, ?_, hrun, hends⟩
    rw [List.concat_eq_append, ← List.cons_append, ← List.append_assoc] at hsplit
    exact (List.append_inj' hsplit rfl).1

/-- What has landed is known to the futures, and followers wait for flights of their key. -/
structure Tracked (clients : ι → FlightClient) (l : List (FlightEvent V ι)) (phase : ι → Phase V)
    (s : Flights V) : Prop where
  landed : ∀ key f r, Landed clients l key f r → s.outcome f = some r
  following : ∀ i f, phase i = .following f →
    (∃ j, (clients j).key = (clients i).key ∧ phase j = .leading f) ∨
      ∃ r, Landed clients l (clients i).key f r

omit [DecidableEq ι] in
theorem Moves.outcome [DecidableEq ι] (h : Moves clients phase s e phase' s')
    (hfly : Flying clients phase s) (hdone : s.outcome future = some r) :
    s'.outcome future = some r := by
  have hget : s.futures[future]? = some (some r) := by
    unfold Flights.outcome at hdone
    exact Option.join_eq_some_iff.mp hdone
  cases h with
  | leads i x hphase hslot =>
    have hlt := (List.getElem?_eq_some_iff.mp hget).1
    simp only [Flights.outcome, List.getElem?_append_left hlt, hget, Option.join_some]
  | lands i w f hphase =>
    have hne : f ≠ future := by
      rintro rfl
      cases hget.symm.trans (hfly.slot_of_leading i f hphase).2
    simp only [Flights.outcome, List.getElem?_set_ne hne, hget, Option.join_some]
  | _ => exact hdone

omit [DecidableEq ι] in
/-- Who follows after a move has followed before, or joins the flight in the slot. -/
theorem Moves.following_inv [DecidableEq ι] (h : Moves clients phase s e phase' s') {i : ι}
    (hfollows : phase' i = .following future) :
    phase i = .following future ∨
      e.task = i ∧ phase i = .waiting ∧ s.inFlight.get? (clients i).key = some future := by
  by_cases hi : e.task = i
  · subst hi
    cases h with
    | joins i x f hphase hslot =>
      simp only [Function.update_self, Phase.following.injEq] at hfollows
      subst hfollows
      exact .inr ⟨rfl, hphase, hslot⟩
    | aborts i hphase => simp at hfollows
    | leads i x hphase hslot => simp at hfollows
    | lands i w f hphase => simp at hfollows
    | returns i x f r hphase hdone => simp at hfollows
    | leaves i f hphase => simp at hfollows
  · refine .inl ?_
    rw [← hfollows]
    cases h <;> exact (Function.update_of_ne (Ne.symm hi) _ _).symm

omit [DecidableEq ι] in
theorem Moves.leading [DecidableEq ι] (h : Moves clients phase s e phase' s') {j : ι}
    (hleads : phase j = .leading future) : phase' j = .leading future ∨ e.task = j := by
  by_cases hj : e.task = j
  · exact .inr hj
  · refine .inl ?_
    rw [← hleads]
    cases h <;> exact Function.update_of_ne (Ne.symm hj) _ _

omit [DecidableEq ι] in
theorem ends_of_leading (hprog : InPhases clients phase P) (hfly : Flying clients phase P.shared)
    (hleads : phase e.task = .leading future) :
    Ends P e (clients e.task).key future (loaded e.wake) :=
  ⟨(awaits_load hprog).mpr ⟨rfl, future, hleads⟩, (hfly.slot_of_leading _ _ hleads).1, rfl⟩

/-- **A move keeps track.** -/
theorem Tracked.step (h : Tracked clients l phase P.shared)
    (hl : Run FlightStep (pool V clients) l P) (hprog : InPhases clients phase P)
    (hfly : Flying clients phase P.shared) (hmoves : Moves clients phase P.shared e phase' s') :
    Tracked clients (l ++ [e]) phase' s' := by
  constructor
  · intro key f r hlanded
    rcases hlanded.snoc_inv hl with hold | hends
    · exact hmoves.outcome hfly (h.landed key f r hold)
    · obtain ⟨-, hphase, rfl⟩ := leading_of_ends hprog hfly hends
      have hlt := (List.getElem?_eq_some_iff.mp (hfly.slot_of_leading _ f hphase).2).1
      cases hmoves with
      | lands i w f' hphase' =>
        cases hphase.symm.trans hphase'
        simp [Flights.outcome, hlt]
      | aborts i hphase' => cases hphase.symm.trans hphase'
      | leads i x hphase' => cases hphase.symm.trans hphase'
      | joins i x f' hphase' => cases hphase.symm.trans hphase'
      | returns i x f' r hphase' => cases hphase.symm.trans hphase'
      | leaves i f' hphase' => cases hphase.symm.trans hphase'
  · -- a flight that was led is still led, or has just landed
    have hflight : ∀ j f, phase j = .leading f → phase' j = .leading f ∨
        ∃ r, Landed clients (l ++ [e]) (clients j).key f r := by
      intro j f hleads
      rcases hmoves.leading hleads with hstill | rfl
      · exact .inl hstill
      · exact .inr ⟨_, l, e, [], P, rfl, hl, ends_of_leading hprog hfly hleads⟩
    have hlead : ∀ i j f, (clients j).key = (clients i).key → phase j = .leading f →
        (∃ j, (clients j).key = (clients i).key ∧ phase' j = .leading f) ∨
          ∃ r, Landed clients (l ++ [e]) (clients i).key f r := by
      intro i j f hkey hleads
      rcases hflight j f hleads with hstill | hlanded
      · exact .inl ⟨j, hkey, hstill⟩
      · rw [hkey] at hlanded
        exact .inr hlanded
    intro i f hfollows
    rcases hmoves.following_inv hfollows with hold | ⟨-, -, hslot⟩
    · rcases h.following i f hold with ⟨j, hkey, hleads⟩ | ⟨r, hlanded⟩
      · exact hlead i j f hkey hleads
      · exact .inr ⟨r, hlanded.snoc e⟩
    · obtain ⟨j, hkey, hleads⟩ := hfly.leading_of_slot _ f hslot
      exact hlead i j f hkey hleads

/-- **Every run is tracked.** -/
theorem tracked_of_run (h : Run FlightStep (pool V clients) l P) :
    ∃ phase, InPhases clients phase P ∧ Flying clients phase P.shared ∧
      Tracked clients l phase P.shared := by
  refine h.history (I := fun l P => ∃ phase, InPhases clients phase P ∧
    Flying clients phase P.shared ∧ Tracked clients l phase P.shared) ?_ ?_
  · refine ⟨fun _ => .waiting, fun _ => rfl, ⟨rfl, ?_, ?_, ?_⟩, ⟨?_, ?_⟩⟩
    · intro i f hleads
      cases hleads
    · intro key f hslot
      cases hslot
    · intro i j f hleads
      cases hleads
    · rintro key f r ⟨l₁, e, l₂, P, hl, -⟩
      simp at hl
    · intro i f hfollows
      cases hfollows
  · rintro l P e P' - hl hst ⟨phase, hprog, hfly, htracked⟩
    obtain ⟨phase', hmoves, hprog'⟩ := moves_of_step hprog hfly hst
    exact ⟨phase', hprog', hmoves.flying hfly, htracked.step hl hprog hfly hmoves⟩

/-- A follower of a flight that has landed can be resumed. -/
theorem resumes_of_landed (htracked : Tracked clients l phase P.shared) {i : ι}
    (hawaits : Awaits P i (.shield future)) (hlanded : Landed clients l key future r)
    (x : Except Exc V) : ∃ P', FlightStep P ⟨i, .resume x⟩ P' := by
  obtain ⟨k, hk⟩ := hawaits
  have hwake : Flights.wake (.resume x) (.shield future) P.shared = some (r, P.shared) := by
    simp only [Flights.wake, Flights.now, htracked.landed key future r hlanded, Option.map_some]
  exact ⟨_, step_of_wake hk hwake⟩

/-- A follower that is resumed ends with the outcome of its flight. -/
theorem Moves.outcome_of_following (h : Moves clients phase s e phase' s')
    (hfly : Flying clients phase s) (htracked : Tracked clients l phase s)
    (hfollows : phase e.task = .following future) (hwake : e.wake ≠ .cancel) :
    ∃ r, Landed clients l (clients e.task).key future r ∧
      phase' e.task = .ended ((clients e.task).finish (r.map (·, false))) := by
  cases h with
  | returns i x f r hphase hdone =>
    cases hfollows.symm.trans hphase
    rcases htracked.following i future hphase with ⟨j, -, hleads⟩ | ⟨r', hlanded⟩
    · have hpending := outcome_of_pending (hfly.slot_of_leading j future hleads).2
      cases hdone.symm.trans hpending
    · cases hdone.symm.trans (htracked.landed _ _ _ hlanded)
      exact ⟨r, hlanded, Function.update_self ..⟩
  | leaves i f hphase => exact absurd rfl hwake
  | aborts i hphase => cases hfollows.symm.trans hphase
  | leads i x hphase => cases hfollows.symm.trans hphase
  | joins i x f hphase => cases hfollows.symm.trans hphase
  | lands i w f hphase => cases hfollows.symm.trans hphase

/-- A leader whose turn it is leaves the slot empty, and ends with the outcome of its loader. -/
theorem Moves.freed_of_leading (h : Moves clients phase s e phase' s')
    (hleads : phase e.task = .leading future) :
    s'.inFlight.get? (clients e.task).key = none ∧
      phase' e.task = .ended ((clients e.task).finish ((loaded e.wake).map (·, true))) := by
  cases h with
  | lands i w f hphase => exact ⟨Dict.get?_erase_self .., Function.update_self ..⟩
  | aborts i hphase => cases hleads.symm.trans hphase
  | leads i x hphase => cases hleads.symm.trans hphase
  | joins i x f hphase => cases hleads.symm.trans hphase
  | returns i x f r hphase => cases hleads.symm.trans hphase
  | leaves i f hphase => cases hleads.symm.trans hphase

/-- **Singleflight.** Whatever the tasks, their keys, the outcomes of the loaders, the cancellations
and the order in which the loop wakes the tasks: there is never more than one loader for a key; a
follower that is not cancelled ends with the outcome of the flight it has joined, once that has
ended; and a flight that ends leaves its slot empty, so that nobody joins a flight that has ended.
-/
theorem singleflight_coalesces (h : Run FlightStep (pool V clients) l P) :
    Coalesces clients l P := by
  obtain ⟨phase, hprog, hfly, htracked⟩ := tracked_of_run h
  refine ⟨⟨hfly.free, not_awaits_acquire hprog⟩, ?_, ?_, ?_, ?_, ?_, ?_, ?_⟩
  · intro i j key hi hj
    obtain ⟨rfl, f, hleads⟩ := (awaits_load hprog).mp hi
    obtain ⟨hkey, f', hleads'⟩ := (awaits_load hprog).mp hj
    have hslot := (hfly.slot_of_leading i f hleads).1
    have hslot' := (hfly.slot_of_leading j f' hleads').1
    rw [← hkey] at hslot'
    cases hslot.symm.trans hslot'
    exact hfly.unique i j f hleads hleads'
  · intro i future hawaits
    rcases htracked.following i future ((awaits_shield hprog).mp hawaits) with
      ⟨j, hkey, hleads⟩ | hlanded
    · refine .inl ⟨j, (awaits_load hprog).mpr ⟨hkey.symm, future, hleads⟩, ?_⟩
      rw [← hkey]
      exact (hfly.slot_of_leading j future hleads).1
    · exact .inr hlanded
  · intro i future r hawaits hlanded x
    exact resumes_of_landed htracked hawaits hlanded x
  · intro e P' future hst hawaits hwake
    obtain ⟨phase', hmoves, hprog'⟩ := moves_of_step hprog hfly hst
    obtain ⟨r, hlanded, hended⟩ :=
      hmoves.outcome_of_following hfly htracked ((awaits_shield hprog).mp hawaits) hwake
    refine ⟨r, hlanded, ?_⟩
    rw [hprog' e.task, hended]
    rfl
  · intro e P' key future r hst hends
    obtain ⟨rfl, hleads, rfl⟩ := leading_of_ends hprog hfly hends
    obtain ⟨phase', hmoves, hprog'⟩ := moves_of_step hprog hfly hst
    obtain ⟨hfreed, hended⟩ := hmoves.freed_of_leading hleads
    refine ⟨hfreed, ?_⟩
    rw [hprog' e.task, hended]
    rfl
  · intro key future hslot
    obtain ⟨j, rfl, hleads⟩ := hfly.leading_of_slot key future hslot
    refine ⟨⟨j, (awaits_load hprog).mpr ⟨rfl, future, hleads⟩⟩, fun key' r hlanded => ?_⟩
    have hpending := outcome_of_pending (hfly.slot_of_leading j future hleads).2
    cases hpending.symm.trans (htracked.landed key' future r hlanded)
  · intro e P' future hst hnot hawaits
    obtain ⟨phase', hmoves, hprog'⟩ := moves_of_step hprog hfly hst
    rcases hmoves.following_inv ((awaits_shield hprog').mp hawaits) with hold | ⟨-, -, hslot⟩
    · exact absurd ((awaits_shield hprog).mpr hold) hnot
    · exact hslot

end

/-- Two calls for one key and a refresh: the second call follows and gets the value, the refresh is
cancelled while it follows. -/
theorem singleflight_coalesces_followed :
    ∃ l P, Run FlightStep (pool ℕ fun i : ℕ => if i = 2 then .spawnRefresh "k" else .do "k") l P ∧
      Coalesces (fun i : ℕ => if i = 2 then .spawnRefresh "k" else .do "k") l P ∧
      P.prog 1 = .ret (.ok (some (5, false))) ∧ P.shared.inFlight.entries = [] := by
  have hrun : ∃ l P, Run FlightStep
      (pool ℕ fun i : ℕ => if i = 2 then .spawnRefresh "k" else .do "k") l P ∧
      P.prog 1 = .ret (.ok (some (5, false))) ∧ P.shared.inFlight.entries = [] :=
    ⟨[⟨0, .resume (.ok 0)⟩, ⟨1, .resume (.ok 0)⟩, ⟨2, .resume (.ok 0)⟩, ⟨2, .cancel⟩,
      ⟨0, .resume (.ok 5)⟩, ⟨1, .resume (.ok 0)⟩], _, run_of_advanceAll rfl, rfl, rfl⟩
  obtain ⟨l, P, h, hret, hempty⟩ := hrun
  exact ⟨l, P, h, singleflight_coalesces h, hret, hempty⟩

end Singleflight

end Varco
