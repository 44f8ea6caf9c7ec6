import Mathlib.Data.Int.ConditionallyCompleteOrder
import Mathlib.Order.ConditionallyCompleteLattice.Basic
import Varco.Foundations.Fence
import Varco.Job.Memory

/-!
# Lease fencing of the in-memory job store

`lease_epoch` is a fencing token. The leased calls of the store (claims that take a lease, renewals,
reaps, and fenced saves of a job at the epoch it carries) form a `Fence` on the epoch of every job:
none of them lowers the epoch, a leased claim hands out an epoch above the stored one, and a renewal
or a fenced save goes through only at the stored epoch. `leaseFence` is that fact, one step at a
time; `lease_fencing` is what it means for any sequence of calls, in any order, by any owners, over
any jobs and at any clock readings.
-/

namespace Varco

namespace InMemoryJobStore

/-- One call, the clock reading it was made at, and what it returned or raised. -/
structure Event where
  clock : Instant
  call : Call
  res : call.Res

/-- The store makes the call of `a` and answers as `a` records. -/
def Step (s : InMemoryJobStore) (a : Event) (s' : InMemoryJobStore) : Prop :=
  s.exec a.clock a.call = (a.res, s')

def Event.claimed : Event → Option Job
  | ⟨_, .tryClaim .., r⟩ => r
  | ⟨_, .claimNext .., r⟩ => r
  | _ => none

/-- A fenced save or a renewal of job `id` at epoch `e` that went through. -/
def Event.WroteAt (id : UUID) (e : ℤ) : Event → Prop
  | ⟨_, .save job (some e'), .ok _⟩ => job.jobId = id ∧ e' = e
  | ⟨_, .renew id' _ e' _, some _⟩ => id' = id ∧ e' = e
  | _ => False

def Event.Refused : Event → Prop
  | ⟨_, .save .., .error _⟩ => True
  | _ => False

/-- The epoch of a stored job, `⊥` if there is none. -/
def epoch (s : InMemoryJobStore) (id : UUID) : WithBot ℤ := (s.get id).map Job.leaseEpoch

/-- The calls that take part in fencing: every claim takes a lease, and a fenced save writes a job
that carries the epoch it expects. -/
def Call.leased : Call → Bool
  | .save job (some e) => job.leaseEpoch = e
  | .tryClaim _ _ (some _) => true
  | .claimNext _ (some _) _ => true
  | .renew .. => true
  | .reapExpiredLeases .. => true
  | _ => false

variable {s s' : InMemoryJobStore} {id : UUID} {job : Job}

theorem epoch_of_get (h : s.get id = some job) : s.epoch id = job.leaseEpoch := by
  simp only [epoch, h]
  rfl

theorem epoch_of_get_none (h : s.get id = none) : s.epoch id = ⊥ := by
  simp only [epoch, h]
  rfl

theorem epoch_congr (h : s'.get id = s.get id) : s'.epoch id = s.epoch id := by
  rw [epoch, h, epoch]

/-- Writing a job whose epoch is at least the stored one lowers no epoch. -/
theorem epoch_le_put (h : s.epoch job.jobId ≤ job.leaseEpoch) (id : UUID) :
    s.epoch id ≤ (s.put job).epoch id := by
  by_cases hid : id = job.jobId
  · subst hid
    rwa [epoch_of_get (get_put_self s job)]
  · refine (epoch_congr ?_).ge
    rw [get_put, if_neg hid]

/-- Writing a copy of a stored job at a later epoch lowers no epoch. -/
theorem epoch_le_put_of_get {j : Job} (job : Job) (hg : s.get j.jobId = some j)
    (hid : job.jobId = j.jobId) (he : j.leaseEpoch ≤ job.leaseEpoch) (id : UUID) :
    s.epoch id ≤ (s.put job).epoch id := by
  refine epoch_le_put ?_ id
  rw [hid, epoch_of_get hg]
  exact WithBot.coe_le_coe.mpr he

def Call.leaseTtl : Call → Option Duration
  | .tryClaim _ _ ttl => ttl
  | .claimNext _ ttl _ => ttl
  | _ => none

variable {a : Event}

/-- **What a claim does**: it takes a PENDING job that is due and stores its RUNNING copy. -/
theorem claimed_spec {c : Job} (h : Step s a s') (hc : a.claimed = some c) :
    ∃ job o now, s.get job.jobId = some job ∧ job.status = .pending ∧ job.due now ∧
      c = job.claimed o a.call.leaseTtl now ∧ s' = s.put c := by
  obtain ⟨clock, call, res⟩ := a
  cases call with
  | tryClaim id o ttl =>
    change res = some c at hc
    change s.tryClaim id o ttl clock = (res, s') at h
    rw [hc] at h
    obtain ⟨job, hg, hp, hd, hcl, hs⟩ := tryClaim_some.mp h
    obtain rfl := jobId_of_get hg
    exact ⟨job, o, clock, hg, hp, hd, hcl, hs⟩
  | claimNext o ttl now =>
    change res = some c at hc
    change s.claimNext o ttl (now.getD clock) = (res, s') at h
    rw [hc] at h
    obtain ⟨job, hg, hp, hd, hcl, hs⟩ := claimNext_some h
    exact ⟨job, o, _, hg, hp, hd, hcl, hs⟩
  | _ => cases hc

theorem leaseTtl_isSome {c : Job} (hl : a.call.leased) (hc : a.claimed = some c) :
    ∃ ttl, a.call.leaseTtl = some ttl := by
  obtain ⟨clock, call, res⟩ := a
  cases call with
  | tryClaim id o ttl =>
    cases ttl with
    | none => cases hl
    | some t => exact ⟨t, rfl⟩
  | claimNext o ttl now =>
    cases ttl with
    | none => cases hl
    | some t => exact ⟨t, rfl⟩
  | _ => cases hc

/-- A leased claim hands out an epoch above the one stored before it, and stores it. -/
theorem epoch_of_claimed {c : Job} (h : Step s a s') (hl : a.call.leased)
    (hc : a.claimed = some c) :
    s.epoch c.jobId < c.leaseEpoch ∧ s'.epoch c.jobId = c.leaseEpoch := by
  obtain ⟨ttl, httl⟩ := leaseTtl_isSome hl hc
  obtain ⟨job, o, now, hg, -, -, rfl, rfl⟩ := claimed_spec h hc
  refine ⟨?_, epoch_of_get (get_put_self s _)⟩
  rw [Job.claimed_jobId, epoch_of_get hg, httl, Job.claimed_some_leaseEpoch]
  exact WithBot.coe_lt_coe.mpr (Int.lt_succ _)

/-- A renewal or a fenced save goes through only at the stored epoch. -/
theorem epoch_of_wroteAt {e : ℤ} (h : Step s a s') (ha : a.WroteAt id e) :
    s.epoch id = e := by
  obtain ⟨clock, call, res⟩ := a
  cases call with
  | save job e' =>
    rcases e' with _ | e'
    · exact ha.elim
    · rcases res with err | u
      · exact ha.elim
      · obtain ⟨rfl, rfl⟩ := ha
        obtain ⟨current, hg, rfl, -⟩ := save_some_ok.mp h
        exact epoch_of_get hg
  | renew id' o e' ttl =>
    rcases res with _ | c
    · exact ha.elim
    · obtain ⟨rfl, rfl⟩ := ha
      obtain ⟨job, hg, -, rfl, -⟩ := renew_some.mp h
      exact epoch_of_get hg
  | _ => exact ha.elim

theorem epoch_le_of_step (h : Step s a s') (hl : a.call.leased) (id : UUID) :
    s.epoch id ≤ s'.epoch id := by
  -- a claim that hands out nothing leaves the store alone; one that does raises the epoch
  have hclaim : ∀ c, a.claimed = some c → s.epoch id ≤ s'.epoch id := by
    intro c hc
    obtain ⟨job, o, now, hg, -, -, rfl, rfl⟩ := claimed_spec h hc
    exact epoch_le_put_of_get _ hg (by simp) (Job.le_claimed_leaseEpoch ..) id
  obtain ⟨clock, call, res⟩ := a
  cases call with
  | save job e =>
    rcases e with _ | e
    · cases hl
    · rcases res with err | u
      · change s.save job (some e) = (.error err, s') at h
        rw [save_error h]
      · obtain ⟨current, hg, rfl, rfl⟩ := save_some_ok.mp h
        have he : job.leaseEpoch = current.leaseEpoch := of_decide_eq_true hl
        refine epoch_le_put_of_get (j := current) job ?_ ?_ he.ge id
        · rwa [jobId_of_get hg]
        · exact (jobId_of_get hg).symm
  | tryClaim id' o ttl =>
    rcases res with _ | c
    · rw [tryClaim_none h]
    · exact hclaim c rfl
  | claimNext o ttl now =>
    rcases res with _ | c
    · rw [claimNext_none h]
    · exact hclaim c rfl
  | renew id' o e ttl =>
    rcases res with _ | c
    · rw [renew_none h]
    · change s.renew id' o e ttl clock = (some c, s') at h
      obtain ⟨job, hg, -, -, rfl, rfl⟩ := renew_some.mp h
      obtain rfl := jobId_of_get hg
      exact epoch_le_put_of_get (job.renewed ttl clock) hg rfl le_rfl id
  | reapExpiredLeases now limit =>
    rcases get_reapExpiredLeases id h with ⟨hget, -⟩ | ⟨j, hj, -, hget, -⟩
    · exact (epoch_congr hget).ge
    · rw [epoch_of_get hj, epoch_of_get hget, Job.reaped_leaseEpoch]
      exact WithBot.coe_le_coe.mpr (by omega)
  | _ => cases hl

/-- **The epoch of a job is a fence** for the leased calls. -/
def leaseFence (id : UUID) : Fence Step (fun a => a.call.leased = true) ℤ where
  token s := s.epoch id
  grant a := (a.claimed.filter (·.jobId = id)).map Job.leaseEpoch
  use a e := a.WroteAt id e
  token_le hl h := epoch_le_of_step h hl id
  token_lt_grant hl h hg := by
    obtain ⟨c, hc, rfl⟩ := Option.map_eq_some_iff.mp hg
    obtain ⟨hc', hid⟩ := Option.filter_eq_some_iff.mp hc
    obtain rfl := of_decide_eq_true hid
    exact (epoch_of_claimed h hl hc').1
  grant_le_token hl h hg := by
    obtain ⟨c, hc, rfl⟩ := Option.map_eq_some_iff.mp hg
    obtain ⟨hc', hid⟩ := Option.filter_eq_some_iff.mp hc
    obtain rfl := of_decide_eq_true hid
    exact (epoch_of_claimed h hl hc').2.ge
  token_of_use _ h hu := epoch_of_wroteAt h hu

theorem leaseFence_grant {c : Job} (hc : a.claimed = some c) (hid : c.jobId = id) :
    (leaseFence id).grant a = some c.leaseEpoch := by
  change (a.claimed.filter (·.jobId = id)).map Job.leaseEpoch = _
  simp [hc, Option.filter, hid]

theorem eq_of_refused (h : Step s a s') (ha : a.Refused) : s' = s := by
  obtain ⟨clock, call, res⟩ := a
  cases call with
  | save job e =>
    rcases res with err | u
    · exact save_error h
    · exact ha.elim
  | _ => exact ha.elim

/-- **Lease fencing.** From any state of the store and along any sequence of leased calls: no epoch
decreases; of two successful claims of a job, the later returns the higher epoch; once the epoch of
a job is past `e`, no save or renewal of it at `e` goes through; and a refused save changes
nothing. -/
theorem lease_fencing {l : List Event} (h : Run Step s l s') (hl : ∀ a ∈ l, a.call.leased) :
    (∀ id, s.epoch id ≤ s'.epoch id) ∧
    (∀ l₁ (a : Event) l₂ (b : Event) l₃ (c d : Job), l = l₁ ++ a :: (l₂ ++ b :: l₃) →
      a.claimed = some c → b.claimed = some d → c.jobId = d.jobId → c.leaseEpoch < d.leaseEpoch) ∧
    (∀ id (e : ℤ), e < s.epoch id → ∀ a ∈ l, ¬a.WroteAt id e) ∧
    (∀ t a t', Step t a t' → a.Refused → t' = t) := by
  refine ⟨fun id => (leaseFence id).token_le_of_run h hl, ?_, ?_, ?_⟩
  · rintro l₁ a l₂ b l₃ c d rfl hc hd hid
    exact (leaseFence d.jobId).grant_lt_grant h hl (leaseFence_grant hc hid)
      (leaseFence_grant hd rfl)
  · intro id e he a ha
    exact (leaseFence id).not_use_of_lt h hl he ha
  · intro t a t' ht ha
    exact eq_of_refused ht ha

/-! ## Running the store -/

/-- Make the calls one after the other, recording what each returned. -/
def runCalls (s : InMemoryJobStore) : List (Instant × Call) → List Event × InMemoryJobStore
  | [] => ([], s)
  | (clock, call) :: cs =>
    let out := s.exec clock call
    let rest := runCalls out.2 cs
    (⟨clock, call, out.1⟩ :: rest.1, rest.2)

theorem run_runCalls (s : InMemoryJobStore) (cs : List (Instant × Call)) :
    Run Step s (s.runCalls cs).1 (s.runCalls cs).2 := by
  induction cs generalizing s with
  | nil => exact .nil s
  | cons p cs ih => exact .cons rfl (ih _)

/-- A worker claims a job for 10 ticks, stalls, is reaped at tick 20 and tries to complete the job
after another worker has claimed it. -/
def stalledWorker : List (Instant × Call) :=
  [(0, .tryClaim 1 (some "a") (some 10)), (20, .reapExpiredLeases none 100),
    (21, .tryClaim 1 (some "b") (some 10)),
    (22, .save { jobId := 1, status := .completed, leaseEpoch := 1 } (some 1))]

theorem lease_fencing_stalledWorker :
    (empty.put { jobId := 1 }).epoch 1 ≤
      ((empty.put { jobId := 1 }).runCalls stalledWorker).2.epoch 1 :=
  (lease_fencing (run_runCalls _ stalledWorker) (by decide)).1 1

end InMemoryJobStore

end Varco
