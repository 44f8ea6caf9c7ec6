import Varco.Job.Fencing

/-!
# Holders of a job

A worker holds a job through the copy that a claim or a renewal handed to it, and writes the job
back as a transition of that copy: fenced by the copy's epoch, or, for a retry, without a fence. The
lease fields of a copy survive `as_retry` and a claim without a lease, so the epoch that an earlier
holder was given may still be the stored one after a new claim.

`HolderCall` are the calls that holders make and `Fenced` the condition on a run under which a new
claim fences every earlier holder: a claim without a lease never takes a job at an epoch that an
earlier claim of it was given, and a retry written without a fence is written at the stored epoch.
`claim_fences_earlier_holders` proves that it is enough, and `retry_keeps_lease` is the run in which
the earlier holder gets through when it fails.

The invariant behind it is `Backed`: a copy that carries an owner or a lease goes back to a leased
claim at its own epoch.
-/

namespace Varco

open List

/-- Two copies of one job with the same lease. -/
structure Job.SameLease (j j' : Job) : Prop where
  jobId : j'.jobId = j.jobId
  ownerId : j'.ownerId = j.ownerId
  leaseExpiresAt : j'.leaseExpiresAt = j.leaseExpiresAt
  leaseEpoch : j'.leaseEpoch = j.leaseEpoch

theorem Job.Successor.sameLease {j j' : Job} (h : j.Successor j') : j.SameLease j' := by
  cases h with
  | completed h => obtain ⟨-, rfl⟩ := asCompleted_eq_ok.mp h; exact ⟨rfl, rfl, rfl, rfl⟩
  | failed h => obtain ⟨-, rfl⟩ := asFailed_eq_ok.mp h; exact ⟨rfl, rfl, rfl, rfl⟩
  | cancelled h => obtain ⟨-, rfl⟩ := asCancelled_eq_ok.mp h; exact ⟨rfl, rfl, rfl, rfl⟩
  | retry h => obtain ⟨-, rfl⟩ := asRetry_eq_ok.mp h; exact ⟨rfl, rfl, rfl, rfl⟩
  | dead h => obtain ⟨-, rfl⟩ := asDead_eq_ok.mp h; exact ⟨rfl, rfl, rfl, rfl⟩

def Job.HasLease (j : Job) : Prop := j.ownerId ≠ none ∨ j.leaseExpiresAt ≠ none

theorem Job.SameLease.hasLease {j j' : Job} (h : j.SameLease j') : j'.HasLease ↔ j.HasLease := by
  rw [HasLease, HasLease, h.ownerId, h.leaseExpiresAt]

namespace InMemoryJobStore

def Event.handedOut : Event → Option Job
  | ⟨_, .tryClaim .., r⟩ => r
  | ⟨_, .claimNext .., r⟩ => r
  | ⟨_, .renew .., r⟩ => r
  | _ => none

def Event.reaped : Event → List Job
  | ⟨_, .reapExpiredLeases .., r⟩ => r
  | _ => []

/-- The calls that holders make in the store `t` after the events `past`: submissions of new jobs,
claims with or without a lease, renewals, reaps, reads, and writes of a transition of a copy that
was handed out, fenced by its epoch or, for a retry, not fenced. -/
def HolderCall (past : List Event) (t : InMemoryJobStore) : Call → Prop
  | .save job (some e) =>
    job.leaseEpoch = e ∧ ∃ a ∈ past, ∃ c, a.handedOut = some c ∧ c.Successor job
  | .save job none =>
    (t.get job.jobId = none ∧ ¬job.HasLease) ∨
      ∃ a ∈ past, ∃ c n, a.handedOut = some c ∧ c.asRetry n = .ok job
  | .delete _ => False
  | .deleteWhere .. => False
  | _ => True

/-- The condition on the event `x` in the store `t` after the events `past`: a claim without a lease
takes a job at an epoch that no earlier claim of it was given, and an unfenced write of a stored job
is made at the stored epoch. -/
def Fenced (past : List Event) (t : InMemoryJobStore) (x : Event) : Prop :=
  (∀ d, x.claimed = some d → x.call.leaseTtl = none →
    ∀ a ∈ past, ∀ c, a.claimed = some c → c.jobId = d.jobId → t.epoch d.jobId ≠ c.leaseEpoch) ∧
  (∀ job current, x.call = .save job none → t.get job.jobId = some current →
    current.leaseEpoch = job.leaseEpoch)

def Unclaimed (s : InMemoryJobStore) : Prop := ∀ id j, s.get id = some j → ¬j.HasLease

abbrev HolderRun (s : InMemoryJobStore) : List Event → InMemoryJobStore → Prop :=
  Guarded Step (fun past t x => HolderCall past t x.call ∧ Fenced past t x) s

variable {s s' t t' : InMemoryJobStore} {l past : List Event} {x : Event} {id : UUID}

/-- A claim with a lease of job `id` at epoch `e` is among the events `past`. -/
def LeasedAt (past : List Event) (id : UUID) (e : ℤ) : Prop :=
  ∃ a ∈ past, ∃ c, a.claimed = some c ∧ c.jobId = id ∧ c.leaseEpoch = e ∧ a.call.leaseTtl ≠ none

def Backed (past : List Event) (j : Job) : Prop := j.HasLease → LeasedAt past j.jobId j.leaseEpoch

/-- What holds of the store `t` after the events `past`. -/
structure HolderInv (past : List Event) (t : InMemoryJobStore) : Prop where
  epoch_le : ∀ a ∈ past, ∀ c, a.handedOut = some c → c.leaseEpoch ≤ t.epoch c.jobId
  stored : ∀ id j, t.get id = some j → Backed past j
  copies : ∀ a ∈ past, ∀ c, a.handedOut = some c → Backed past c

theorem LeasedAt.snoc {e : ℤ} (h : LeasedAt past id e) : LeasedAt (past ++ [x]) id e := by
  obtain ⟨a, ha, hc⟩ := h
  exact ⟨a, mem_append_left _ ha, hc⟩

theorem Backed.snoc {j : Job} (h : Backed past j) : Backed (past ++ [x]) j :=
  fun hl => (h hl).snoc

theorem Backed.of_sameLease {j j' : Job} (h : Backed past j) (hs : j.SameLease j') :
    Backed past j' := by
  intro hl
  rw [hs.jobId, hs.leaseEpoch]
  exact h (hs.hasLease.mp hl)

theorem handedOut_of_claimed {c : Job} (h : x.claimed = some c) : x.handedOut = some c := by
  obtain ⟨clock, call, res⟩ := x
  cases call with
  | tryClaim => exact h
  | claimNext => exact h
  | _ => cases h

/-! ## What one event does to one job -/

/-- The ways in which an event can change the job of `id`. -/
inductive Change (past : List Event) (x : Event) (id : UUID) (t t' : InMemoryJobStore) : Prop
  | same (h : t'.get id = t.get id)
  | submit {job : Job} (hg : t.get id = none) (hput : t'.get id = some job) (hl : ¬job.HasLease)
  | claim {job d : Job} {o : Option String} {now : Instant} (hg : t.get id = some job)
      (hc : x.claimed = some d) (hd : d = job.claimed o x.call.leaseTtl now)
      (hput : t'.get id = some d)
  | renew {job : Job} {o : String} {ttl : Duration} {now : Instant} (hg : t.get id = some job)
      (ho : job.ownerId = some o) (hput : t'.get id = some (job.renewed ttl now))
  | save {job current c : Job} {a : Event} (hg : t.get id = some current)
      (he : current.leaseEpoch = job.leaseEpoch) (hput : t'.get id = some job)
      (ha : a ∈ past) (hc : a.handedOut = some c) (hl : c.SameLease job)
  | reap {job : Job} {now : Instant} (hg : t.get id = some job) (he : job.leaseExpired now)
      (hput : t'.get id = some job.reaped)

theorem change_of_put {job : Job} (h : t' = t.put job)
    (hjob : t'.get job.jobId = some job → Change past x job.jobId t t') (id : UUID) :
    Change past x id t t' := by
  subst h
  by_cases hid : id = job.jobId
  · subst hid
    exact hjob (get_put_self t job)
  · refine .same ?_
    rw [get_put, if_neg hid]

theorem change_of_claimed {d : Job} (h : Step t x t') (hc : x.claimed = some d) (id : UUID) :
    Change past x id t t' := by
  obtain ⟨job, o, now, hg, -, -, hd, hput⟩ := claimed_spec h hc
  refine change_of_put hput (fun hget => ?_) id
  have hid : d.jobId = job.jobId := by rw [hd, Job.claimed_jobId]
  exact .claim (hid ▸ hg) hc hd hget

/-- What a claim or a renewal hands out is what it stores. -/
theorem get_of_handedOut {c : Job} (h : Step t x t') (hc : x.handedOut = some c) :
    t'.get c.jobId = some c := by
  by_cases hcl : x.claimed = some c
  · obtain ⟨job, o, now, -, -, -, -, rfl⟩ := claimed_spec h hcl
    exact get_put_self t c
  · obtain ⟨clock, call, res⟩ := x
    cases call with
    | tryClaim => exact absurd hc hcl
    | claimNext => exact absurd hc hcl
    | renew id o e ttl =>
      change res = some c at hc
      change t.renew id o e ttl clock = (res, t') at h
      rw [hc] at h
      obtain ⟨job, -, -, -, -, rfl⟩ := renew_some.mp h
      exact get_put_self t c
    | _ => cases hc

/-- A held copy is written over a job at its own epoch. -/
theorem change_of_save {job current c : Job} {a : Event} (hput : t' = t.put job)
    (hg : t.get job.jobId = some current) (he : current.leaseEpoch = job.leaseEpoch)
    (ha : a ∈ past) (hc : a.handedOut = some c) (hl : c.SameLease job) (id : UUID) :
    Change past x id t t' :=
  change_of_put hput (fun hget => .save hg he hget ha hc hl) id

/-- **What a holder's event does**: one of the changes, at every id. -/
theorem change_of_step (hinv : HolderInv past t) (h : Step t x t')
    (hcall : HolderCall past t x.call) (hf : Fenced past t x) (id : UUID) :
    Change past x id t t' := by
  have hclaim : ∀ c, x.claimed = some c → Change past x id t t' :=
    fun c hc => change_of_claimed h hc id
  obtain ⟨clock, call, res⟩ := x
  cases call with
  | save job e =>
    rcases e with _ | e
    · have hput : t' = t.put job := (Prod.mk.inj h).2.symm
      rcases hcall with ⟨hg, hl⟩ | ⟨a, ha, c, n, hc, hr⟩
      · exact change_of_put hput (fun hget => .submit hg hget hl) id
      · -- the job of a copy that was handed out is stored
        have hsame : c.SameLease job := (Job.Successor.retry hr).sameLease
        have hle := hinv.epoch_le a ha c hc
        rw [← hsame.jobId] at hle
        cases hg : t.get job.jobId with
        | none =>
          rw [epoch_of_get_none hg, le_bot_iff] at hle
          exact absurd hle (WithBot.coe_ne_bot)
        | some current => exact change_of_save hput hg (hf.2 job current rfl hg) ha hc hsame id
    · obtain ⟨he, a, ha, c, hc, hsucc⟩ := hcall
      rcases res with err | u
      · change t.save job (some e) = (.error err, t') at h
        exact .same (by rw [save_error h])
      · obtain ⟨current, hg, rfl, hput⟩ := save_some_ok.mp h
        exact change_of_save hput hg he.symm ha hc hsucc.sameLease id
  | get id' => exact .same (by rw [(Prod.mk.inj h).2])
  | listByStatus status limit => exact .same (by rw [(Prod.mk.inj h).2])
  | delete id' => exact hcall.elim
  | deleteWhere f limit => exact hcall.elim
  | tryClaim id' o ttl =>
    rcases res with _ | c
    · exact .same (by rw [tryClaim_none h])
    · exact hclaim c rfl
  | claimNext o ttl now =>
    rcases res with _ | c
    · exact .same (by rw [claimNext_none h])
    · exact hclaim c rfl
  | renew id' o e ttl =>
    rcases res with _ | c
    · exact .same (by rw [renew_none h])
    · change t.renew id' o e ttl clock = (some c, t') at h
      obtain ⟨job, hg, ho, -, rfl, hput⟩ := renew_some.mp h
      obtain rfl := jobId_of_get hg
      exact change_of_put hput (fun hget => .renew hg ho hget) id
  | reapExpiredLeases now limit =>
    rcases get_reapExpiredLeases id h with ⟨hget, -⟩ | ⟨j, hj, hexp, hget, -⟩
    · exact .same hget
    · exact .reap hj hexp hget

/-! ## The invariant along a run -/

theorem Change.epoch_le (h : Change past x id t t') : t.epoch id ≤ t'.epoch id := by
  cases h with
  | same h => exact (epoch_congr h).ge
  | submit hg => exact (epoch_of_get_none hg).trans_le bot_le
  | claim hg hc hd hput =>
    rw [epoch_of_get hg, epoch_of_get hput, hd]
    exact WithBot.coe_le_coe.mpr (Job.le_claimed_leaseEpoch ..)
  | renew hg ho hput => rw [epoch_of_get hg, epoch_of_get hput, Job.renewed_leaseEpoch]
  | save hg he hput => rw [epoch_of_get hg, epoch_of_get hput, he]
  | reap hg he hput =>
    rw [epoch_of_get hg, epoch_of_get hput, Job.reaped_leaseEpoch]
    exact WithBot.coe_le_coe.mpr (by omega)

/-- A claim without a lease keeps the lease fields as they were. -/
theorem sameLease_claimed_none (j : Job) (o : Option String) (now : Instant) :
    j.SameLease (j.claimed o none now) := ⟨rfl, rfl, rfl, rfl⟩

theorem Change.backed (hinv : HolderInv past t) (h : Change past x id t t') {j : Job}
    (hj : t'.get id = some j) : Backed (past ++ [x]) j := by
  have hstored : ∀ job, t.get id = some job → Backed (past ++ [x]) job :=
    fun job hg => (hinv.stored id job hg).snoc
  cases h with
  | same h => exact hstored j (h ▸ hj)
  | submit hg hput hl =>
    cases hput.symm.trans hj
    exact fun h => absurd h hl
  | @claim job d o now hg hc hd hput =>
    cases hput.symm.trans hj
    cases httl : x.call.leaseTtl with
    | none =>
      rw [httl] at hd
      rw [hd]
      exact (hstored job hg).of_sameLease (sameLease_claimed_none job o now)
    | some ttl =>
      intro
      exact ⟨x, by simp, j, hc, rfl, rfl, by simp [httl]⟩
  | @renew job o ttl now hg ho hput =>
    cases hput.symm.trans hj
    intro
    exact hstored job hg (Or.inl (by simp [ho]))
  | save hg he hput ha hc hl =>
    cases hput.symm.trans hj
    exact ((hinv.copies _ ha _ hc).of_sameLease hl).snoc
  | reap hg he hput =>
    cases hput.symm.trans hj
    rintro (h | h) <;> exact absurd rfl h

theorem HolderInv.step (hinv : HolderInv past t) (h : Step t x t')
    (hcall : HolderCall past t x.call) (hf : Fenced past t x) : HolderInv (past ++ [x]) t' := by
  have hchange := fun id => change_of_step hinv h hcall hf id
  have hstored : ∀ id j, t'.get id = some j → Backed (past ++ [x]) j :=
    fun id j hj => (hchange id).backed hinv hj
  refine ⟨fun a ha c hc => ?_, hstored, fun a ha c hc => ?_⟩
  · rcases mem_append.mp ha with ha | ha
    · exact (hinv.epoch_le a ha c hc).trans (hchange c.jobId).epoch_le
    · obtain rfl := mem_singleton.mp ha
      exact (epoch_of_get (get_of_handedOut h hc)).ge
  · rcases mem_append.mp ha with ha | ha
    · exact (hinv.copies a ha c hc).snoc
    · obtain rfl := mem_singleton.mp ha
      exact hstored c.jobId c (get_of_handedOut h hc)

theorem HolderRun.inv (hs : Unclaimed s) (h : HolderRun s l t) : HolderInv l t := by
  refine h.invariant ⟨by simp, fun id j hj hl => absurd hl (hs id j hj), by simp⟩ ?_
  intro l t a t' _ hok hst hinv
  exact hinv.step hst hok.1 hok.2

/-! ## Claims fence -/

/-- A claim is given a higher epoch than every earlier claim of the job. -/
theorem leaseEpoch_lt_of_claimed {a b : Event} {c d : Job} (hinv : HolderInv past t)
    (h : Step t b t') (hf : Fenced past t b) (ha : a ∈ past) (hc : a.claimed = some c)
    (hd : b.claimed = some d) (hid : c.jobId = d.jobId) : c.leaseEpoch < d.leaseEpoch := by
  have hle := hinv.epoch_le a ha c (handedOut_of_claimed hc)
  have hne : b.call.leaseTtl = none → t.epoch d.jobId ≠ c.leaseEpoch :=
    fun httl => hf.1 d hd httl a ha c hc hid
  obtain ⟨job, o, now, hg, -, -, rfl, -⟩ := claimed_spec h hd
  rw [hid, Job.claimed_jobId, epoch_of_get hg, WithBot.coe_le_coe] at hle
  cases httl : b.call.leaseTtl with
  | some ttl =>
    rw [Job.claimed_some_leaseEpoch]
    omega
  | none =>
    have hne := hne httl
    rw [Job.claimed_jobId, epoch_of_get hg] at hne
    rw [Job.claimed_none_leaseEpoch]
    exact lt_of_le_of_ne hle fun he => hne (by rw [he])

/-- The job of `id` is stored without a lease, at an epoch that no leased claim was given. -/
def Free (past : List Event) (t : InMemoryJobStore) (id : UUID) : Prop :=
  ∃ j, t.get id = some j ∧ ¬j.HasLease ∧ ¬LeasedAt past id j.leaseEpoch

theorem free_of_unleased_claim {b : Event} {d : Job} (hinv : HolderInv past t) (h : Step t b t')
    (hf : Fenced past t b) (hd : b.claimed = some d) (httl : b.call.leaseTtl = none) :
    Free (past ++ [b]) t' d.jobId := by
  have hne := hf.1 d hd httl
  obtain ⟨job, o, now, hg, -, -, rfl, rfl⟩ := claimed_spec h hd
  rw [httl] at hne hd ⊢
  have hsame := sameLease_claimed_none job o now
  rw [hsame.jobId, epoch_of_get hg] at hne
  have hfree : ¬LeasedAt past job.jobId job.leaseEpoch := by
    rintro ⟨a, ha, c, hc, hid, he, -⟩
    exact hne a ha c hc hid (by rw [he])
  refine ⟨_, get_put_self t _, fun hl => ?_, ?_⟩
  · exact hfree (hinv.stored _ job hg (hsame.hasLease.mp hl))
  · rintro ⟨a, ha, c, hc, hid, he, hleased⟩
    rcases mem_append.mp ha with ha | ha
    · exact hfree ⟨a, ha, c, hc, hid, he, hleased⟩
    · obtain rfl := mem_singleton.mp ha
      exact hleased httl

theorem not_leaseExpired_of_not_hasLease {j : Job} {now : Instant} (hl : ¬j.HasLease) :
    ¬j.leaseExpired now := by
  intro h
  obtain ⟨-, e, he, -⟩ := Job.leaseExpired_iff.mp h
  exact hl (Or.inr (by simp [he]))

/-- An event that is no claim of the job keeps it free: it carries no lease to renew or to reap, and
a copy that is written over it at its epoch carries none either. -/
theorem Free.step (hfree : Free past t id) (hinv : HolderInv past t)
    (hchange : Change past x id t t') (hx : ∀ c, x.claimed = some c → c.jobId ≠ id) :
    Free (past ++ [x]) t' id := by
  obtain ⟨j, hj, hl, hn⟩ := hfree
  have hn' : ¬LeasedAt (past ++ [x]) id j.leaseEpoch := by
    rintro ⟨a, ha, c, hc, hid, he, hleased⟩
    rcases mem_append.mp ha with ha | ha
    · exact hn ⟨a, ha, c, hc, hid, he, hleased⟩
    · obtain rfl := mem_singleton.mp ha
      exact hx c hc hid
  cases hchange with
  | same h => exact ⟨j, h ▸ hj, hl, hn'⟩
  | submit hg => cases hg.symm.trans hj
  | claim hg hc hd hput =>
    exact absurd (jobId_of_get hput) (hx _ hc)
  | renew hg ho hput =>
    cases hg.symm.trans hj
    exact absurd (Or.inl (by simp [ho])) hl
  | @save job current c a hg he hput ha hc hsame =>
    cases hg.symm.trans hj
    refine ⟨job, hput, fun hjl => hn ?_, he ▸ hn'⟩
    have hback := hinv.copies a ha c hc (hsame.hasLease.mp hjl)
    rwa [← hsame.jobId, ← hsame.leaseEpoch, jobId_of_get hput, ← he] at hback
  | reap hg he hput =>
    cases hg.symm.trans hj
    exact absurd he (not_leaseExpired_of_not_hasLease hl)

/-- After a claim without a lease, the job stays free until it is claimed again. -/
theorem HolderRun.free {l₁ l₂ : List Event} {b : Event} {d : Job} (hs : Unclaimed s)
    (h : HolderRun s (l₁ ++ b :: l₂) t) (hd : b.claimed = some d) (httl : b.call.leaseTtl = none)
    (hlast : ∀ y ∈ l₂, ∀ c, y.claimed = some c → c.jobId ≠ d.jobId) :
    Free (l₁ ++ b :: l₂) t d.jobId := by
  induction l₂ using List.reverseRecOn generalizing t with
  | nil =>
    obtain ⟨u, hu, hok, hst⟩ := h.snoc_inv
    exact free_of_unleased_claim (HolderRun.inv hs hu) hst hok.2 hd httl
  | append_singleton l₂ y ih =>
    rw [← cons_append, ← append_assoc] at h ⊢
    obtain ⟨u, hu, hok, hst⟩ := h.snoc_inv
    have hinv := HolderRun.inv hs hu
    have hfree := ih hu fun z hz => hlast z (mem_append_left _ hz)
    exact hfree.step hinv (change_of_step hinv hst hok.1 hok.2 _) (hlast y (by simp))

theorem Free.reap {now : Instant} {limit : ℤ} {r : List Job} (hfree : Free past t id)
    (h : t.reapExpiredLeases now limit = (r, t')) :
    t'.get id = t.get id ∧ ∀ j ∈ r, j.jobId ≠ id := by
  obtain ⟨j, hj, hl, -⟩ := hfree
  rcases get_reapExpiredLeases id h with hsame | ⟨j', hj', hexp, -⟩
  · exact hsame
  · cases hj'.symm.trans hj
    exact absurd hexp (not_leaseExpired_of_not_hasLease hl)

/-- **A claim fences every earlier holder**, in the runs that keep to the condition. Whatever is
called next: no fenced save and no renewal at the epoch of a claim goes through once the job has
been claimed again, and a reap neither changes nor returns a job whose latest claim took no
lease. -/
theorem claim_fences_earlier_holders (hs : Unclaimed s) (h : HolderRun s l t) (hx : Step t x t') :
    (∀ l₁ (a : Event) l₂ (b : Event) l₃ (c d : Job), l = l₁ ++ a :: (l₂ ++ b :: l₃) →
      a.claimed = some c → b.claimed = some d → c.jobId = d.jobId →
      ¬x.WroteAt c.jobId c.leaseEpoch) ∧
    (∀ l₁ (b : Event) l₂ (d : Job), l = l₁ ++ b :: l₂ → b.claimed = some d →
      b.call.leaseTtl = none → (∀ y ∈ l₂, ∀ c, y.claimed = some c → c.jobId ≠ d.jobId) →
      ∀ now limit, x.call = .reapExpiredLeases now limit →
        t'.get d.jobId = t.get d.jobId ∧ ∀ r ∈ x.reaped, r.jobId ≠ d.jobId) := by
  constructor
  · rintro l₁ a l₂ b l₃ c d rfl hc hd hid hw
    have hle := (HolderRun.inv hs h).epoch_le b (by simp) d (handedOut_of_claimed hd)
    rw [← hid, epoch_of_wroteAt hx hw, WithBot.coe_le_coe] at hle
    rw [← cons_append, ← append_assoc] at h
    obtain ⟨u, u', hu, hok, hst, -, -⟩ := h.at_label
    have hlt := leaseEpoch_lt_of_claimed (HolderRun.inv hs hu) hst hok.2 (by simp) hc hd hid
    omega
  · rintro l₁ b l₂ d rfl hd httl hlast now limit hcall
    have hfree := HolderRun.free hs h hd httl hlast
    obtain ⟨clock, call, res⟩ := x
    cases hcall
    exact hfree.reap hx

/-! ## The earlier holder gets through -/

def submitted : Job := { jobId := 1, maxAttempts := 3 }

/-- The copy that worker `a` was handed at tick 0. -/
def heldByA : Job := submitted.claimed (some "a") (some 10) 0

/-- The retry that worker `a` saved. -/
def retryOfA : Job := { heldByA with status := .pending, runAt := some 2, attempt := 1 }

/-- Worker `a` claims the job for 10 ticks, fails and saves the retry, fenced by its epoch; then the
job is claimed at tick 2 by `o`, with or without a lease. -/
def retried (o : Option String) (ttl : Option Duration) : List Event :=
  [⟨0, .tryClaim 1 (some "a") (some 10), some heldByA⟩, ⟨1, .save retryOfA (some 1), .ok ()⟩,
    ⟨2, .tryClaim 1 o ttl, some (retryOfA.claimed o ttl 2)⟩]

def takenOver (o : Option String) (ttl : Option Duration) : InMemoryJobStore :=
  empty.put (retryOfA.claimed o ttl 2)

/-- The run, under any condition `ok` that its three events meet. -/
theorem retried_run {ok : List Event → InMemoryJobStore → Event → Prop} (o : Option String)
    (ttl : Option Duration)
    (h₁ : ok [] (empty.put submitted) ⟨0, .tryClaim 1 (some "a") (some 10), some heldByA⟩)
    (h₂ : ok [⟨0, .tryClaim 1 (some "a") (some 10), some heldByA⟩] (empty.put heldByA)
      ⟨1, .save retryOfA (some 1), .ok ()⟩)
    (h₃ : ok [⟨0, .tryClaim 1 (some "a") (some 10), some heldByA⟩,
      ⟨1, .save retryOfA (some 1), .ok ()⟩] (empty.put retryOfA)
      ⟨2, .tryClaim 1 o ttl, some (retryOfA.claimed o ttl 2)⟩) :
    Guarded Step ok (empty.put submitted) (retried o ttl) (takenOver o ttl) := by
  refine .snoc (.snoc (.snoc .nil h₁ ?_) h₂ ?_) h₃ ?_
  · rfl
  · rfl
  · cases ttl <;> rfl

theorem retryOfA_holderCall :
    HolderCall [⟨0, .tryClaim 1 (some "a") (some 10), some heldByA⟩] (empty.put heldByA)
      (.save retryOfA (some 1)) :=
  ⟨rfl, _, mem_singleton_self _, heldByA, rfl, .retry (t := 2) rfl⟩

/-- **A retry keeps the lease of the holder that failed**: once the job has been claimed again
without a lease, that holder's renewal goes through, so does its fenced save, and a reap takes the
job from its new holder. -/
theorem retry_keeps_lease :
    ∃ l t, Guarded Step (fun past t x => HolderCall past t x.call) (empty.put submitted) l t ∧
      ∃ (l₁ : List Event) (a : Event) (l₂ : List Event) (b : Event) (c d : Job),
        l = l₁ ++ a :: (l₂ ++ [b]) ∧ a.claimed = some c ∧ b.claimed = some d ∧
        c.jobId = d.jobId ∧ b.call.leaseTtl = none ∧
        (∃ x t', Step t x t' ∧ (∃ ttl, x.call = .renew c.jobId "a" c.leaseEpoch ttl) ∧
          x.WroteAt c.jobId c.leaseEpoch) ∧
        (∃ x t', Step t x t' ∧ (∃ j, x.call = .save j (some c.leaseEpoch)) ∧
          x.WroteAt c.jobId c.leaseEpoch) ∧
        (∃ x t', Step t x t' ∧ x.call = .reapExpiredLeases none 100 ∧
          t'.get d.jobId ≠ t.get d.jobId ∧ ∃ r ∈ x.reaped, r.jobId = d.jobId) := by
  refine ⟨retried (some "b") none, takenOver (some "b") none,
    retried_run _ _ trivial retryOfA_holderCall trivial, [], _, [_], _, heldByA, _, rfl, rfl, rfl,
    rfl, rfl, ?_, ?_, ?_⟩
  · exact ⟨⟨3, .renew 1 "a" 1 10, some ((retryOfA.claimed (some "b") none 2).renewed 10 3)⟩, _, rfl,
      ⟨10, rfl⟩, rfl, rfl⟩
  · exact ⟨⟨3, .save { heldByA with status := .completed } (some 1), .ok ()⟩, _, rfl, ⟨_, rfl⟩, rfl,
      rfl⟩
  · exact ⟨⟨20, .reapExpiredLeases none 100, [(retryOfA.claimed (some "b") none 2).reaped]⟩, _, rfl,
      rfl, by decide, _, mem_singleton_self _, rfl⟩

/-- The renewal of worker `a` after the takeover, refused. -/
def lateRenewal : Event := ⟨3, .renew 1 "a" 1 10, none⟩

/-- Taken over with a lease, the retried job is out of reach of the holder that failed. -/
theorem claim_fences_earlier_holders_leased_retry :
    Step (takenOver (some "b") (some 10)) lateRenewal (takenOver (some "b") (some 10)) ∧
      ¬lateRenewal.WroteAt 1 1 := by
  have hx : Step (takenOver (some "b") (some 10)) lateRenewal (takenOver (some "b") (some 10)) :=
    rfl
  have hs : Unclaimed (empty.put submitted) := by
    intro id j hj
    rw [get_put] at hj
    split_ifs at hj
    · cases hj
      rintro (h | h) <;> exact absurd rfl h
    · cases hj
  have hrun : HolderRun (empty.put submitted) (retried (some "b") (some 10))
      (takenOver (some "b") (some 10)) := by
    refine retried_run _ _ ⟨trivial, ?_⟩ ⟨retryOfA_holderCall, ?_⟩ ⟨trivial, ?_⟩
    · exact ⟨fun d hd httl => (by cases httl), fun job current hcall => (by cases hcall)⟩
    · exact ⟨fun d hd httl => (by cases hd), fun job current hcall => (by cases hcall)⟩
    · exact ⟨fun d hd httl => (by cases httl), fun job current hcall => (by cases hcall)⟩
  exact ⟨hx, (claim_fences_earlier_holders hs hrun hx).1 [] _ [_] _ [] heldByA _ rfl rfl rfl rfl⟩

end InMemoryJobStore

end Varco
