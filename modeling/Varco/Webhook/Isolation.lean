import Varco.Webhook.Dispatcher

/-!
# Webhook subscriptions are isolated

Every call of `_on_trigger` ends, and it ends with a delivery or a recorded failure for each
subscription that it has loaded; no subscription that has been disabled is active again; and the
failures since the last success are counted (`webhooks_isolated`). This holds of the runs whose
steps are as `Meets` says: every subscription that is loaded can be signed for, every delay can be
computed, and what is saved is not overtaken by another delivery.
-/

namespace Varco

open List

namespace WebhookDispatcher

variable {cfg : Config} {ι : Type} [DecidableEq ι] {rows : Rows}

/-! ## What is promised -/

def effectsOf (pk : UUID) (effects : List (UUID × Effect)) : List Effect :=
  (effects.filter fun e => e.1 = pk).map Prod.snd

/-- The call has ended for a subscription: with a delivery, or with a recorded failure and, if there
is a dead letter queue, one entry for the event. -/
inductive Ended (cfg : Config) (event : WebhookTriggerEvent) : List Effect → Prop
  | delivered : Ended cfg event [.delivered]
  | succeeded : Ended cfg event [.delivered, .succeeded]
  | failed (hdlq : cfg.hasDlq = false) : Ended cfg event [.failed]
  | deadLettered (entry : DeadLetter WebhookTriggerEvent Bytes) (hdlq : cfg.hasDlq = true)
      (hevent : entry.event = some event) : Ended cfg event [.failed, .deadLettered entry]

def Phase.call? : Phase → Option Call
  | .idle => none
  | .sending c _ | .saving c _ _ | .pushing c | .returned c | .raised c _ => some c

def EndsEach (cfg : Config) : Phase → Prop
  | .returned c | .raised c _ =>
    ∀ entry ∈ c.subscriptions, Ended cfg c.event (effectsOf entry.1 c.effects)
  | _ => True

/-- The saves of one subscription, and whether each was that of a failure. -/
def savesOf (pk : UUID) (saves : List (UUID × Bool)) : List Bool :=
  (saves.filter fun save => save.1 = pk).map Prod.snd

/-- The failures since the last success, where there were `n` at first. -/
def countFailures (n : ℤ) (saves : List Bool) : ℤ :=
  saves.foldl (fun n failed => if failed then n + 1 else 0) n

/-! ## What is asked of a step -/

/-- The event can be signed for the subscription. -/
structure Signable (event : WebhookTriggerEvent) (subscription : WebhookSubscription) : Prop where
  payload : ∃ json, event.payloadJson = .ok json
  signer : subscription.signer = "standard_webhooks" ∨ subscription.signer = "rfc9421"
  secrets : subscription.activeSecrets ≠ []

/-- The stored subscription has not been changed in a way that saving the loaded one would undo: a
failure is counted on from the stored count and does not enable what is disabled, a success does not
either. -/
def Current (cfg : Config) (loaded : WebhookSubscription) (failed : Bool)
    (stored : WebhookSubscription) : Prop :=
  if failed then
    stored.consecutiveFailures = loaded.consecutiveFailures ∧
      (stored.status = "DISABLED" → cfg.disableAfterFailures ≤ loaded.consecutiveFailures + 1)
  else stored.status ≠ "DISABLED"

def Meets (cfg : Config) (s : State) : Phase → Draw × Answer → Prop
  | .idle, (_, .trigger event) =>
    ∀ entry ∈ findActiveMatching cfg event s.rows, Signable event entry.2
  | .sending _ d, (draw, .sent response) =>
    isDelivered response = false → d.attemptIndex + 1 < cfg.retryPolicy.maxAttempts →
      ∃ delay, cfg.retryPolicy.computeDelay d.attemptIndex draw.uniform = .ok delay
  | .saving _ d failed, (_, .saved) =>
    ∀ stored, s.rows.get? d.pk = some stored → Current cfg d.subscription failed stored
  | _, _ => True

/-! ## How far a call has come -/

/-- The call has ended for the subscriptions in `past`, and has done nothing yet for the others. -/
structure Over (cfg : Config) (c : Call) (past : List (UUID × WebhookSubscription)) : Prop where
  nodup : (c.subscriptions.map Prod.fst).Nodup
  ended : ∀ entry ∈ past, Ended cfg c.event (effectsOf entry.1 c.effects)
  untouched : ∀ pk, pk ∉ past.map Prod.fst → effectsOf pk c.effects = []
  signable : ∀ entry ∈ c.subscriptions, Signable c.event entry.2

/-- The call is at the subscription of `d`, for which it has done `own`. -/
structure At (cfg : Config) (c : Call) (d : Delivery) (own : List Effect) : Prop where
  nodup : (c.subscriptions.map Prod.fst).Nodup
  signable : ∀ entry ∈ c.subscriptions, Signable c.event entry.2
  split : ∃ past, c.subscriptions = past ++ (d.pk, d.subscription) :: c.left ∧
    (∀ entry ∈ past, Ended cfg c.event (effectsOf entry.1 c.effects)) ∧
    ∀ pk, pk ∉ past.map Prod.fst → pk ≠ d.pk → effectsOf pk c.effects = []
  own : effectsOf d.pk c.effects = own

def Inv (cfg : Config) : Phase → Prop
  | .idle => True
  | .sending c d => At cfg c d [] ∧ d.attemptIndex < cfg.retryPolicy.maxAttempts
  | .saving c d false => At cfg c d [.delivered]
  | .saving c d true => At cfg c d []
  | .pushing c => ∃ past, c.subscriptions = past ++ c.left ∧ Over cfg c past
  | .returned c => Over cfg c c.subscriptions
  | .raised _ _ => False

theorem effectsOf_append_self {pk : UUID} {effects : List (UUID × Effect)} {e : Effect} :
    effectsOf pk (effects ++ [(pk, e)]) = effectsOf pk effects ++ [e] := by
  simp [effectsOf]

theorem effectsOf_append_of_ne {pk pk' : UUID} {effects : List (UUID × Effect)} {e : Effect}
    (h : pk ≠ pk') : effectsOf pk (effects ++ [(pk', e)]) = effectsOf pk effects := by
  simp [effectsOf, h.symm]

theorem ne_of_nodup {past left : List (UUID × WebhookSubscription)} {pk : UUID}
    {subscription : WebhookSubscription}
    (h : ((past ++ (pk, subscription) :: left).map Prod.fst).Nodup) : pk ∉ past.map Prod.fst := by
  rw [map_append, nodup_append] at h
  intro hmem
  exact h.2.2 pk hmem pk (by simp) rfl

variable {c : Call} {d : Delivery}

/-- One more effect for the subscription of the delivery. -/
theorem At.does {own : List Effect} (h : At cfg c d own) (e : Effect) :
    At cfg { c with effects := c.effects ++ [(d.pk, e)] } d (own ++ [e]) := by
  obtain ⟨past, hsplit, hended, huntouched⟩ := h.split
  have hnot : d.pk ∉ past.map Prod.fst := ne_of_nodup (hsplit ▸ h.nodup)
  refine ⟨h.nodup, h.signable, ⟨past, hsplit, fun entry hentry => ?_, fun pk hpk hne => ?_⟩, ?_⟩
  · have hne : entry.1 ≠ d.pk := by
      intro he
      exact hnot (he ▸ mem_map_of_mem hentry)
    rw [effectsOf_append_of_ne hne]
    exact hended entry hentry
  · rw [effectsOf_append_of_ne hne]
    exact huntouched pk hpk hne
  · rw [effectsOf_append_self, h.own]

/-- The call has ended for the subscription of the delivery. -/
theorem At.past {own : List Effect} (h : At cfg c d own) (hended : Ended cfg c.event own) :
    ∃ past, c.subscriptions = past ++ c.left ∧ Over cfg c past := by
  obtain ⟨past, hsplit, hover, huntouched⟩ := h.split
  refine ⟨past ++ [(d.pk, d.subscription)], by rw [hsplit]; simp, h.nodup, fun entry hentry => ?_,
    fun pk hpk => ?_, h.signable⟩
  · rcases mem_append.mp hentry with hentry | hentry
    · exact hover entry hentry
    · rw [mem_singleton.mp hentry, h.own]
      exact hended
  · rw [map_append, mem_append, not_or] at hpk
    exact huntouched pk hpk.1 (by simpa using hpk.2)

/-- **The loop goes on with the next subscription.** -/
theorem inv_deliverNext {past : List (UUID × WebhookSubscription)} (draw : Draw)
    (hsplit : c.subscriptions = past ++ c.left) (h : Over cfg c past) :
    Inv cfg (deliverNext cfg draw c) := by
  unfold deliverNext
  cases hleft : c.left with
  | nil =>
    rw [hleft, append_nil] at hsplit
    rw [← hsplit] at h
    exact h
  | cons entry left =>
    rw [hleft] at hsplit
    have hsignable := h.signable entry (by rw [hsplit]; simp)
    obtain ⟨json, hjson⟩ := hsignable.payload
    obtain ⟨signer, hsigner⟩ : ∃ signer, getSigner entry.2.signer entry.2.activeSecrets
        cfg.signatureToleranceSeconds = .ok signer :=
      getSigner_isOk_iff.mpr ⟨hsignable.signer, hsignable.secrets⟩
    simp only [hjson, hsigner]
    have hnot : entry.1 ∉ past.map Prod.fst := ne_of_nodup (hsplit ▸ h.nodup)
    exact ⟨⟨h.nodup, h.signable, ⟨past, hsplit, h.ended, fun pk hpk _ => h.untouched pk hpk⟩,
      h.untouched entry.1 hnot⟩, cfg.retryPolicy.maxAttempts_pos⟩

theorem nodup_findActiveMatching (event : WebhookTriggerEvent) :
    ((findActiveMatching cfg event rows).map Prod.fst).Nodup :=
  rows.nodup.sublist (filter_sublist.map _)

theorem inv_onTrigger {event : WebhookTriggerEvent} (draw : Draw)
    (h : ∀ entry ∈ findActiveMatching cfg event rows, Signable event entry.2) :
    Inv cfg (onTrigger cfg draw event rows) :=
  inv_deliverNext draw (nil_append _).symm
    ⟨nodup_findActiveMatching event, fun _ he => absurd he not_mem_nil, fun _ _ => rfl, h⟩

theorem inv_sent {draw : Draw} {response : Except PyException ℤ} (h : At cfg c d [])
    (hmeets : isDelivered response = false → d.attemptIndex + 1 < cfg.retryPolicy.maxAttempts →
      ∃ delay, cfg.retryPolicy.computeDelay d.attemptIndex draw.uniform = .ok delay) :
    Inv cfg (sent cfg draw response c d) := by
  unfold sent
  cases hdelivered : isDelivered response with
  | true =>
    rw [if_pos rfl]
    have hdoes := h.does .delivered
    dsimp only
    split
    · exact hdoes
    · obtain ⟨past, hsplit, hover⟩ := hdoes.past .delivered
      exact inv_deliverNext draw hsplit hover
  | false =>
    rw [if_neg Bool.false_ne_true]
    dsimp only
    split
    · next hmore =>
      obtain ⟨delay, hdelay⟩ := hmeets hdelivered hmore
      rw [hdelay]
      exact ⟨⟨h.nodup, h.signable, h.split, h.own⟩, hmore⟩
    · exact ⟨h.nodup, h.signable, h.split, h.own⟩

theorem inv_saved {draw : Draw} {failed : Bool}
    (h : Inv cfg (.saving c d failed)) : Inv cfg (saved cfg draw c d failed) := by
  unfold saved
  cases failed with
  | false =>
    have h : At cfg c d [.delivered] := h
    obtain ⟨past, hsplit, hover⟩ := (h.does .succeeded).past .succeeded
    exact inv_deliverNext draw hsplit hover
  | true =>
    have h : At cfg c d [] := h
    cases hdlq : cfg.hasDlq with
    | false =>
      obtain ⟨past, hsplit, hover⟩ := (h.does .failed).past (.failed hdlq)
      exact inv_deliverNext draw hsplit hover
    | true => exact ((h.does .failed).does _).past (.deadLettered _ hdlq rfl)

variable {s s' : State}

/-- **One step keeps the invariant of its task.** -/
theorem inv_next {p p' : Phase} {a : Draw × Answer} (h : Inv cfg p)
    (hmeets : Meets cfg s p a) (hnext : next cfg a s p = some (s', p')) : Inv cfg p' := by
  obtain ⟨draw, answer⟩ := a
  cases answer with
  | trigger event =>
    cases p with
    | idle =>
      cases hnext
      exact inv_onTrigger draw hmeets
    | _ => cases hnext
  | sent response =>
    cases p with
    | sending c d =>
      cases hnext
      exact inv_sent h.1 hmeets
    | _ => cases hnext
  | saved =>
    cases p with
    | saving c d failed =>
      cases hnext
      exact inv_saved h
    | _ => cases hnext
  | pushed result =>
    cases p with
    | pushing c =>
      cases hnext
      obtain ⟨past, hsplit, hover⟩ := h
      exact inv_deliverNext draw hsplit hover
    | _ => cases hnext

theorem endsEach_of_inv {p : Phase} (h : Inv cfg p) : EndsEach cfg p := by
  cases p with
  | returned c => exact h.ended
  | raised c exc => exact h.elim
  | _ => trivial

/-! ## How many steps a call makes -/

/-- The steps of one subscription: its attempts, the save and the push. -/
def perSubscription (cfg : Config) : ℕ := cfg.retryPolicy.maxAttempts + 2

def stepsLeft (cfg : Config) : Phase → ℕ
  | .idle => 0
  | .sending c d =>
    cfg.retryPolicy.maxAttempts - d.attemptIndex + 2 + c.left.length * perSubscription cfg
  | .saving c _ _ => 2 + c.left.length * perSubscription cfg
  | .pushing c => 1 + c.left.length * perSubscription cfg
  | .returned _ | .raised _ _ => 0

theorem stepsLeft_deliverNext_le (draw : Draw) (c : Call) :
    stepsLeft cfg (deliverNext cfg draw c) ≤ c.left.length * perSubscription cfg := by
  unfold deliverNext
  split
  · exact Nat.zero_le _
  · next pk subscription left hleft =>
    rw [hleft]
    split
    · exact Nat.zero_le _
    · exact Nat.zero_le _
    · simp only [stepsLeft, length_cons, Nat.add_mul, one_mul]
      rw [perSubscription]
      omega

def stepsOf (cfg : Config) (p : Phase) : ℕ :=
  p.call?.elim 0 fun c => 1 + c.subscriptions.length * perSubscription cfg

theorem stepsOf_deliverNext (draw : Draw) (c : Call) :
    stepsOf cfg (deliverNext cfg draw c) =
      1 + c.subscriptions.length * perSubscription cfg := by
  unfold deliverNext
  split
  · rfl
  · split <;> rfl

/-- An answer to an attempt brings a call one step nearer to its end. -/
theorem stepsLeft_sent {draw : Draw} {response : Except PyException ℤ}
    (h : d.attemptIndex < cfg.retryPolicy.maxAttempts) :
    stepsLeft cfg (sent cfg draw response c d) + 1 ≤ stepsLeft cfg (.sending c d) ∧
      stepsOf cfg (sent cfg draw response c d) = stepsOf cfg (.sending c d) := by
  unfold sent
  split
  · dsimp only
    split
    · refine ⟨?_, rfl⟩
      simp only [stepsLeft]
      omega
    · refine ⟨?_, stepsOf_deliverNext draw _⟩
      refine (Nat.succ_le_succ (stepsLeft_deliverNext_le draw _)).trans ?_
      simp only [stepsLeft]
      omega
  · dsimp only
    split
    · split
      · refine ⟨?_, rfl⟩
        simp only [stepsLeft]
        omega
      · refine ⟨?_, rfl⟩
        simp only [stepsLeft]
        omega
    · refine ⟨?_, rfl⟩
      simp only [stepsLeft]
      omega

theorem stepsLeft_saved {draw : Draw} {failed : Bool} :
    stepsLeft cfg (saved cfg draw c d failed) + 1 ≤ stepsLeft cfg (.saving c d failed) ∧
      stepsOf cfg (saved cfg draw c d failed) = stepsOf cfg (.saving c d failed) := by
  unfold saved
  dsimp only
  split
  · refine ⟨?_, rfl⟩
    simp only [stepsLeft]
    omega
  · refine ⟨?_, stepsOf_deliverNext draw _⟩
    refine (Nat.succ_le_succ (stepsLeft_deliverNext_le draw _)).trans ?_
    simp only [stepsLeft]
    omega

/-- **One step brings a call one step nearer to its end.** The first one has as many steps before it
as the call can make. -/
theorem stepsLeft_next {p p' : Phase} {a : Draw × Answer} (h : Inv cfg p)
    (hnext : next cfg a s p = some (s', p')) :
    (p = .idle ∧ stepsLeft cfg p' + 1 ≤ stepsOf cfg p') ∨
      (stepsLeft cfg p' + 1 ≤ stepsLeft cfg p ∧ stepsOf cfg p' = stepsOf cfg p) := by
  obtain ⟨draw, answer⟩ := a
  cases answer with
  | trigger event =>
    cases p with
    | idle =>
      cases hnext
      refine .inl ⟨rfl, ?_⟩
      rw [onTrigger, stepsOf_deliverNext]
      have := @stepsLeft_deliverNext_le cfg draw
        { event, subscriptions := findActiveMatching cfg event s.rows,
          left := findActiveMatching cfg event s.rows }
      dsimp only at this ⊢
      omega
    | _ => cases hnext
  | sent response =>
    cases p with
    | sending c d =>
      cases hnext
      exact .inr (stepsLeft_sent h.2)
    | _ => cases hnext
  | saved =>
    cases p with
    | saving c d failed =>
      cases hnext
      exact .inr stepsLeft_saved
    | _ => cases hnext
  | pushed result =>
    cases p with
    | pushing c =>
      cases hnext
      refine .inr ⟨?_, stepsOf_deliverNext draw c⟩
      refine (Nat.succ_le_succ (stepsLeft_deliverNext_le draw c)).trans ?_
      simp only [stepsLeft]
      omega
    | _ => cases hnext

/-! ## What the repository holds -/

/-- A step saves at most one subscription, and what it saves is current. -/
inductive Saves (cfg : Config) (s : State) : State → Prop
  | nothing : Saves cfg s s
  | row (pk : UUID) (loaded : WebhookSubscription) (failed : Bool)
      (hcurrent : ∀ stored, s.rows.get? pk = some stored → Current cfg loaded failed stored) :
      Saves cfg s
        { rows := s.rows.set pk (ended cfg failed loaded), saves := s.saves ++ [(pk, failed)] }

theorem saves_of_next {p p' : Phase} {a : Draw × Answer} (hmeets : Meets cfg s p a)
    (hnext : next cfg a s p = some (s', p')) : Saves cfg s s' := by
  obtain ⟨draw, answer⟩ := a
  cases answer with
  | saved =>
    cases p with
    | saving c d failed =>
      cases hnext
      exact .row d.pk d.subscription failed hmeets
    | _ => cases hnext
  | trigger event =>
    cases p with
    | idle =>
      cases hnext
      exact .nothing
    | _ => cases hnext
  | sent response =>
    cases p with
    | sending c d =>
      cases hnext
      exact .nothing
    | _ => cases hnext
  | pushed result =>
    cases p with
    | pushing c =>
      cases hnext
      exact .nothing
    | _ => cases hnext

/-- The subscription is stored, and is disabled if it was so before. -/
def StillDisabled (pk : UUID) (s : State) : Prop :=
  ∃ stored, s.rows.get? pk = some stored ∧ stored.status = "DISABLED"

/-- The stored count is that of the failures since the last success. -/
def Counted (pk : UUID) (n : ℤ) (s : State) : Prop :=
  ∃ stored, s.rows.get? pk = some stored ∧
    stored.consecutiveFailures = countFailures n (savesOf pk s.saves)

theorem ended_status {loaded stored : WebhookSubscription} {failed : Bool}
    (h : Current cfg loaded failed stored) (hdisabled : stored.status = "DISABLED") :
    (ended cfg failed loaded).status = "DISABLED" := by
  cases failed with
  | false => exact absurd hdisabled h
  | true =>
    have hcount := h.2 hdisabled
    rw [ended, if_pos rfl, onExhaustion]
    dsimp only
    rw [if_pos hcount]

theorem ended_consecutiveFailures {loaded stored : WebhookSubscription} {failed : Bool}
    (h : Current cfg loaded failed stored) :
    (ended cfg failed loaded).consecutiveFailures =
      if failed then stored.consecutiveFailures + 1 else 0 := by
  cases failed with
  | false => rfl
  | true =>
    rw [ended, if_pos rfl, onExhaustion, if_pos rfl, h.1]
    dsimp only
    split <;> rfl

/-- **What is disabled stays disabled.** -/
theorem stillDisabled_of_saves {pk : UUID} (h : Saves cfg s s')
    (hs : StillDisabled pk s) : StillDisabled pk s' := by
  obtain ⟨stored, hstored, hdisabled⟩ := hs
  cases h with
  | nothing => exact ⟨stored, hstored, hdisabled⟩
  | row pk' loaded failed hcurrent =>
    by_cases hpk : pk = pk'
    · subst hpk
      exact ⟨_, Dict.get?_set_self .., ended_status (hcurrent stored hstored) hdisabled⟩
    · refine ⟨stored, ?_, hdisabled⟩
      rw [Dict.get?_set, if_neg hpk]
      exact hstored

/-- **Every failure is counted.** -/
theorem counted_of_saves {pk : UUID} {n : ℤ} (h : Saves cfg s s')
    (hs : Counted pk n s) : Counted pk n s' := by
  obtain ⟨stored, hstored, hcount⟩ := hs
  cases h with
  | nothing => exact ⟨stored, hstored, hcount⟩
  | row pk' loaded failed hcurrent =>
    by_cases hpk : pk = pk'
    · subst hpk
      refine ⟨_, Dict.get?_set_self .., ?_⟩
      rw [ended_consecutiveFailures (hcurrent stored hstored), hcount]
      simp [savesOf, countFailures]
    · refine ⟨stored, ?_, ?_⟩
      · rw [Dict.get?_set, if_neg hpk]
        exact hstored
      · rw [hcount]
        simp [savesOf, Ne.symm hpk]

def GoesOn (cfg : Config) (s : State) (p : Phase) : Prop :=
  (∃ a, next cfg a s p ≠ none) ∨ ∃ c, p = .returned c

theorem goesOn_of_inv {p : Phase} (s : State) (h : Inv cfg p) : GoesOn cfg s p := by
  have draw : Draw := ⟨0, 0, 1⟩
  cases p with
  | idle => exact .inl ⟨(draw, .trigger ⟨"", none, .ok ""⟩), Option.some_ne_none _⟩
  | sending c d => exact .inl ⟨(draw, .sent (.ok 200)), Option.some_ne_none _⟩
  | saving c d failed => exact .inl ⟨(draw, .saved), Option.some_ne_none _⟩
  | pushing c => exact .inl ⟨(draw, .pushed (.ok ())), Option.some_ne_none _⟩
  | returned c => exact .inr ⟨c, rfl⟩
  | raised c exc => exact h.elim

/-- **Webhook subscriptions are isolated and stay disabled**, in every run whose steps are as
`Meets` says: each call goes on until it has returned, after finitely many steps, and has ended for
each of its subscriptions then; what is disabled at some time is so ever after; and every count is
that of the failures since the last success. -/
theorem webhooks_isolated {l : List (ι × Draw × Answer)} {w : Calls ι}
    (hrun : Guarded (Step cfg) (fun _ u a => Meets cfg u.shared (u.phase a.1) a.2) (fresh ι rows)
      l w) :
    (∀ i, GoesOn cfg w.shared (w.phase i) ∧ EndsEach cfg (w.phase i) ∧
      (l.filter fun a => a.1 = i).length ≤ stepsOf cfg (w.phase i)) ∧
    (∀ l₀ l₁ u pk, l = l₀ ++ l₁ → Run (Step cfg) (fresh ι rows) l₀ u → StillDisabled pk u.shared →
      StillDisabled pk w.shared) ∧
    ∀ pk row, rows.get? pk = some row → Counted pk row.consecutiveFailures w.shared := by
  have hinv : ∀ i, Inv cfg (w.phase i) ∧
      (l.filter fun a => a.1 = i).length + stepsLeft cfg (w.phase i) ≤ stepsOf cfg (w.phase i) := by
    refine hrun.invariant (I := fun l (w : Calls ι) => ∀ i, Inv cfg (w.phase i) ∧
      (l.filter fun a => a.1 = i).length + stepsLeft cfg (w.phase i) ≤ stepsOf cfg (w.phase i))
      (fun i => ⟨trivial, le_rfl⟩) ?_
    rintro l u a u' _ hmeets ⟨q, hq, rfl⟩ ih i
    rw [filter_append, length_append]
    by_cases hi : i = a.1
    · subst hi
      rw [Tasks.put_phase_self]
      refine ⟨inv_next (ih _).1 hmeets hq, ?_⟩
      have hih := (ih a.1).2
      rcases stepsLeft_next (ih _).1 hq with ⟨hidle, hle⟩ | ⟨hle, heq⟩
      · rw [hidle] at hih
        simp only [stepsLeft, stepsOf, Phase.call?, Option.elim_none] at hih hle ⊢
        simp
        omega
      · simp
        omega
    · rw [Tasks.put_phase_of_ne hi]
      simpa [Ne.symm hi] using ih i
  refine ⟨fun i => ⟨goesOn_of_inv _ (hinv i).1, endsEach_of_inv (hinv i).1,
    (Nat.le_add_right _ _).trans (hinv i).2⟩, ?_, ?_⟩
  · rintro l₀ l₁ u pk rfl hu hdisabled
    have hdet : ∀ (t : Calls ι) a v v', Step cfg t a v → Step cfg t a v' → v = v' :=
      fun _ _ _ _ => Tasks.Step.det
    refine hrun.invariant_from (I := fun _ (v : Calls ι) => StillDisabled pk v.shared) hdet hu
      hdisabled ?_
    rintro l v a v' _ _ hmeets ⟨q, hq, rfl⟩ _ hv
    exact stillDisabled_of_saves (saves_of_next hmeets hq) hv
  · intro pk row hrow
    refine hrun.invariant (I := fun _ (v : Calls ι) => Counted pk row.consecutiveFailures v.shared)
      ⟨row, hrow, rfl⟩ ?_
    rintro l v a v' _ hmeets ⟨q, hq, rfl⟩ hv
    exact counted_of_saves (saves_of_next hmeets hq) hv

/-! ## Examples -/

/-- One attempt, a subscription disabled after `n` failures, a dead letter queue, and patterns that
are names. -/
def Config.once (n : ℤ) : Config where
  retryPolicy := ⟨1, ⟨1, "1.0"⟩, ⟨60, "60.0"⟩, ⟨2, "2.0"⟩, false, fun _ => true, Nat.one_pos,
    by decide +kernel, by decide +kernel, by decide +kernel⟩
  disableAfterFailures := n
  signatureToleranceSeconds := ⟨300, "300.0"⟩
  hasDlq := true
  fnmatch := fun name pattern => name == pattern

def toOrders (secrets : List String) (failures : ℤ) : WebhookSubscription where
  tenantId := "acme"
  targetUrl := "https://acme.example/hook"
  eventPatterns := ["order.created"]
  activeSecrets := secrets
  consecutiveFailures := failures

def orderCreated : WebhookTriggerEvent := ⟨"order.created", some "acme", .ok "\x7b\x7d"⟩

def draw₁ : Draw := ⟨7, 0, 1⟩

def twoToOrders : Rows := (Dict.empty.set 1 (toOrders ["whsec"] 0)).set 2 (toOrders ["whsec"] 3)

/-- A failing receiver is disabled, with one dead letter entry, and the one after it is delivered
to. -/
theorem webhooks_isolated_order :
    ∃ w : Calls ℕ, (∃ c, w.phase 0 = .returned c ∧ c.subscriptions.map Prod.fst = [1, 2]) ∧
      EndsEach (.once 1) (w.phase 0) ∧ StillDisabled 1 w.shared ∧ Counted 2 3 w.shared ∧
      w.shared.saves = [(1, true), (2, false)] := by
  have hmeets : Meets (.once 1) { rows := twoToOrders } .idle (draw₁, .trigger orderCreated) := by
    intro entry hentry
    have hmem : entry ∈ [(1, toOrders ["whsec"] 0), (2, toOrders ["whsec"] 3)] :=
      (mem_filter.mp hentry).1
    simp only [mem_cons, not_mem_nil, or_false] at hmem
    rcases hmem with rfl | rfl <;> exact ⟨⟨_, rfl⟩, by decide, by decide⟩
  have h₁ : Guarded (Step (.once 1)) (fun _ u a => Meets (.once 1) u.shared (u.phase a.1) a.2)
      (fresh ℕ twoToOrders) ([] ++ [((0 : ℕ), draw₁, Answer.trigger orderCreated)]) _ :=
    .snoc .nil hmeets ⟨_, rfl, rfl⟩
  have h₂ := h₁.snoc (a := (0, draw₁, .sent (.ok 500)))
    (by exact fun _ hmore => absurd hmore (by decide)) ⟨_, rfl, rfl⟩
  have h₃ := h₂.snoc (a := (0, draw₁, .saved)) (by
      intro stored hstored
      rw [← Option.some.inj hstored]
      exact ⟨rfl, by decide⟩) ⟨_, rfl, rfl⟩
  have h₄ := h₃.snoc (a := (0, draw₁, .pushed (.ok ()))) (by simp [Meets]) ⟨_, rfl, rfl⟩
  have h₅ := h₄.snoc (a := (0, draw₁, .sent (.ok 200)))
    (by exact fun _ hmore => absurd hmore (by decide)) ⟨_, rfl, rfl⟩
  have h₆ := h₅.snoc (a := (0, draw₁, .saved)) (by
      intro stored hstored
      rw [← Option.some.inj hstored]
      exact (by decide : "ACTIVE" ≠ "DISABLED")) ⟨_, rfl, rfl⟩
  obtain ⟨hends, -, hcounted⟩ := webhooks_isolated h₆
  exact ⟨_, ⟨_, rfl, by decide⟩, (hends 0).2.1, ⟨_, rfl, by decide⟩, hcounted 2 _ rfl, rfl⟩

/-- A subscription without secrets, and one that has failed once, of which a second failure disables
it. -/
def unsignable : Rows := (Dict.empty.set 1 (toOrders [] 0)).set 2 (toOrders ["whsec"] 1)

/-- The subscription before another one cannot be signed for, and the other one is not delivered to;
and a success saves as active what has been disabled while it was under way. -/
theorem webhooks_not_isolated :
    (∃ (l : List (ℕ × Draw × Answer)) (w : Calls ℕ),
      Run (Step (.once 2)) (fresh ℕ unsignable) l w ∧ ¬EndsEach (.once 2) (w.phase 0)) ∧
    ∃ (l l' : List (ℕ × Draw × Answer)) (w w' : Calls ℕ),
      Run (Step (.once 2)) (fresh ℕ (Dict.empty.set 2 (toOrders ["whsec"] 1))) l w ∧
        Run (Step (.once 2)) w l' w' ∧ StillDisabled 2 w.shared ∧ ¬StillDisabled 2 w'.shared := by
  constructor
  · refine ⟨[(0, draw₁, .trigger orderCreated)], _, .single ⟨_, rfl, rfl⟩, fun h => ?_⟩
    cases h (2, toOrders ["whsec"] 1) (by decide)
  · refine ⟨[(0, draw₁, .trigger orderCreated), (1, draw₁, .trigger orderCreated),
      (0, draw₁, .sent (.ok 500)), (0, draw₁, .saved)],
      [(1, draw₁, .sent (.ok 200)), (1, draw₁, .saved)], _, _,
      Tasks.run_of_advance rfl, Tasks.run_of_advance rfl, ⟨_, rfl, by decide⟩, ?_⟩
    rintro ⟨stored, hstored, hdisabled⟩
    rw [← Option.some.inj hstored] at hdisabled
    exact absurd hdisabled (by decide)

end WebhookDispatcher

end Varco
