import Mathlib.Data.List.Find
import Varco.Job.RedisSweeps
import Varco.Job.Runner

/-!
# The oldest due job

`claim_next` of the in-memory store, of the Redis store and of the base class, each on its own. The
in-memory store takes the first PENDING job that is due in the order of insertion. The Redis store
and the default of the base class fetch the first hundred PENDING jobs, skip those that are not due,
and claim the first that `try_claim` lets them have; a backlog of a hundred scheduled jobs hides
every job behind it. `recover` of the job runner fetches a hundred PENDING jobs in the same way,
claims the due ones that carry a payload, and looks their tasks up only then.

`ClaimsOldest` is what a call promises, and `OldestFirst` the condition under which it keeps it.
-/

namespace Varco

open List

/-- The job is waiting, and its schedule allows a claim at `t`. -/
def Job.waiting (t : Instant) (job : Job) : Bool := job.status = .pending && job.due t

/-- A call returned nothing because no waiting job was due at `current`, or claimed the oldest of
them, at the clock reading `stamp`. -/
structure ClaimsOldest (ownerId : Option String) (leaseTtl : Option Duration)
    (current stamp : Instant) (before : List Job) (out : Option Job) (after : List Job) :
    Prop where
  none : out = none → (∀ j ∈ before, j.waiting current = false) ∧ ∀ j, j ∈ after ↔ j ∈ before
  some : ∀ c, out = some c → ∃ job ∈ before, job.waiting current = true ∧
    (∀ j ∈ before, j.waiting current = true → job.createdAt ≤ j.createdAt) ∧
    c = job.claimed ownerId leaseTtl stamp ∧
    ∀ j, j ∈ after ↔ j = c ∨ j ∈ before ∧ j.jobId ≠ c.jobId

/-- No job is waiting, or the first candidate that can be claimed is as old as any waiting job. -/
def OldestFirst (current : Instant) (claimable : Job → Bool) (candidates before : List Job) :
    Prop :=
  (∀ j ∈ before, j.waiting current = false) ∨
    ∃ pre job post, candidates = pre ++ job :: post ∧ (∀ j ∈ pre, claimable j = false) ∧
      claimable job = true ∧
      ∀ j ∈ before, j.waiting current = true → job.createdAt ≤ j.createdAt

/-- A call that claims the first candidate it can claim keeps its promise exactly where that one is
as old as any waiting job. -/
theorem claimsOldest_iff {ownerId : Option String} {leaseTtl : Option Duration}
    {current stamp : Instant} {claimable : Job → Bool} {candidates before after : List Job}
    (hsub : candidates ⊆ before)
    (hwaiting : ∀ j ∈ candidates, claimable j = true → j.waiting current = true)
    (hkeys : (before.map Job.jobId).Nodup)
    (hnone : candidates.find? claimable = none → ∀ j, j ∈ after ↔ j ∈ before)
    (hsome : ∀ job, candidates.find? claimable = some job → ∀ j, j ∈ after ↔
      j = job.claimed ownerId leaseTtl stamp ∨ j ∈ before ∧ j.jobId ≠ job.jobId) :
    ClaimsOldest ownerId leaseTtl current stamp before
        ((candidates.find? claimable).map (Job.claimed · ownerId leaseTtl stamp)) after ↔
      OldestFirst current claimable candidates before := by
  cases hfind : candidates.find? claimable with
  | none =>
    have hskip := List.find?_eq_none.mp hfind
    constructor
    · exact fun h => Or.inl (h.none rfl).1
    · rintro (hidle | ⟨pre, job, post, rfl, -, hclaim, -⟩)
      · exact ⟨fun _ => ⟨hidle, hnone hfind⟩, by simp⟩
      · exact absurd hclaim (hskip job (by simp))
  | some job =>
    obtain ⟨hclaim, pre, post, hsplit, hpre⟩ := List.find?_eq_some_iff_append.mp hfind
    have hmem : job ∈ candidates := mem_of_find?_eq_some hfind
    have hjob := hwaiting job hmem hclaim
    constructor
    · intro h
      obtain ⟨job', hmem', -, hold, hcopy, -⟩ := h.some _ rfl
      -- the copy tells which job was claimed
      have hid : job.jobId = job'.jobId := by
        have hcopyId := congrArg Job.jobId hcopy
        rwa [Job.claimed_jobId, Job.claimed_jobId] at hcopyId
      obtain rfl := eq_of_key hkeys (hsub hmem) hmem' hid
      exact Or.inr ⟨pre, job, post, hsplit, fun j hj => by simpa using hpre j hj, hclaim, hold⟩
    · rintro (hidle | ⟨pre', job', post', hsplit', hpre', hclaim', hold⟩)
      · rw [hidle job (hsub hmem)] at hjob
        cases hjob
      · have hsame : candidates.find? claimable = some job' :=
          List.find?_eq_some_iff_append.mpr
            ⟨hclaim', pre', post', hsplit', fun j hj => by simp [hpre' j hj]⟩
        obtain rfl := Option.some.inj (hfind.symm.trans hsame)
        refine ⟨by simp, ?_⟩
        rintro c ⟨⟩
        refine ⟨job, hsub hmem, hjob, hold, rfl, fun j => ?_⟩
        rw [hsome job hfind, Job.claimed_jobId]

/-! ## The in-memory store -/

namespace InMemoryJobStore

theorem mem_values_put {s : InMemoryJobStore} {c j : Job} :
    j ∈ (s.put c).jobs.values ↔ j = c ∨ j ∈ s.jobs.values ∧ j.jobId ≠ c.jobId := by
  rw [mem_values, get_put]
  by_cases hid : j.jobId = c.jobId
  · simp [hid, eq_comm]
  · have hne : j ≠ c := fun he => hid (congrArg Job.jobId he)
    simp [hid, hne, mem_values]

/-- **When the in-memory store claims the oldest due job**: in the order of insertion, the first
waiting job is as old as any. -/
theorem claimsOldest_claimNext (s : InMemoryJobStore) (ownerId : Option String)
    (leaseTtl : Option Duration) (current : Instant) :
    ClaimsOldest ownerId leaseTtl current current s.jobs.values
        (s.claimNext ownerId leaseTtl current).1
        (s.claimNext ownerId leaseTtl current).2.jobs.values ↔
      OldestFirst current (Job.waiting current) s.jobs.values s.jobs.values := by
  have hout : (s.claimNext ownerId leaseTtl current).1 =
      (s.jobs.values.find? (Job.waiting current)).map (Job.claimed · ownerId leaseTtl current) := by
    unfold claimNext firstDue Job.waiting
    cases s.jobs.values.find? fun job => decide (job.status = .pending) && job.due current <;> rfl
  rw [hout]
  refine claimsOldest_iff (List.Subset.refl _) (fun j _ h => h) s.nodup_jobId_values ?_ ?_
  · intro hfind j
    have hsame : s.claimNext ownerId leaseTtl current = (none, s) := by
      unfold claimNext firstDue
      unfold Job.waiting at hfind
      rw [hfind]
    rw [hsame]
  · intro job hfind j
    have hput : s.claimNext ownerId leaseTtl current =
        (some (job.claimed ownerId leaseTtl current),
          s.put (job.claimed ownerId leaseTtl current)) := by
      unfold claimNext firstDue
      unfold Job.waiting at hfind
      rw [hfind]
    rw [hput, mem_values_put, Job.claimed_jobId]

end InMemoryJobStore

/-! ## The Redis store -/

namespace RedisJobStore

open RedisServer

/-- The loop of `claim_next`. -/
def claimLoop (store : RedisJobStore) (ownerId : Option String) (leaseTtl : Option Duration)
    (current : Instant) : List Job → Rd (Option Job)
  | [] => pure none
  | candidate :: rest =>
    if candidate.due current then do
      match ← store.tryClaim candidate.jobId ownerId leaseTtl with
      | some claimed => pure (some claimed)
      | none => claimLoop store ownerId leaseTtl current rest
    else claimLoop store ownerId leaseTtl current rest

def claimNext (store : RedisJobStore) (ownerId : Option String) (leaseTtl : Option Duration)
    (now : Option Instant) : Rd (Option Job) :=
  match now with
  | some current => do
    let candidates ← listByStatus .pending 100
    claimLoop store ownerId leaseTtl current candidates
  | none => do
    let current ← send .now
    let candidates ← listByStatus .pending 100
    claimLoop store ownerId leaseTtl current candidates

variable {s s' : RedisServer Unit} (store : RedisJobStore) (ownerId : Option String)
  (leaseTtl : Option Duration) {current : Instant} {job : Job}

def guarded (s : RedisServer Unit) (id : UUID) : Bool := (s.claims id).any (s.clock < ·)

/-- `try_claim` lets a PENDING job go: it is due at the server's time, and not guarded. -/
def claimable (s : RedisServer Unit) (job : Job) : Bool := job.due s.clock && !guarded s job.jobId

def afterClaim (s : RedisServer Unit) (store : RedisJobStore) (job copy : Job) :
    RedisServer Unit :=
  { s with claims := Function.update s.claims job.jobId (some (s.clock + store.claimTtl)) }.saved
    copy

theorem runAlone_finishClaim (s : RedisServer Unit) (job : Job) :
    runAlone (finishClaim job ownerId leaseTtl) s =
      (.ok (some (job.claimed ownerId leaseTtl s.clock)),
        s.saved (job.claimed ownerId leaseTtl s.clock)) := by
  unfold finishClaim
  rw [runAlone_send]
  cases leaseTtl with
  | none => exact runAlone_bind (runAlone_saveUnfenced s (runningCopy job s.clock))
  | some ttl =>
    exact runAlone_bind (runAlone_saveUnfenced s
      (leasedCopy job ownerId s.clock (s.clock + ttl)))

theorem runAlone_releaseClaim (s : RedisServer Unit) (id : UUID) :
    runAlone (releaseClaim id) s =
      (.ok none, { s with claims := Function.update s.claims id none }) := rfl

theorem runAlone_tryClaim (hget : s.jobs.get job.jobId = some job)
    (hpending : job.status = .pending) :
    runAlone (store.tryClaim job.jobId ownerId leaseTtl) s =
      if claimable s job then
        (.ok (some (job.claimed ownerId leaseTtl s.clock)),
          afterClaim s store job (job.claimed ownerId leaseTtl s.clock))
      else if guarded s job.jobId then (.ok none, s)
      else (.ok none, { s with claims := Function.update s.claims job.jobId none }) := by
  unfold tryClaim
  rw [runAlone_send]
  cases hguard : guarded s job.jobId with
  | true =>
    have hset : perform () (.setClaim job.jobId store.claimTtl) s = (false, s) := if_pos hguard
    simp only [hset, claimable, hguard, Bool.not_true, Bool.and_false, Bool.false_eq_true, if_false,
      if_true]
    rfl
  | false =>
    let s₁ : RedisServer Unit :=
      { s with claims := Function.update s.claims job.jobId (some (s.clock + store.claimTtl)) }
    have hset : perform () (.setClaim job.jobId store.claimTtl) s = (true, s₁) :=
      if_neg (by simp [guarded] at hguard ⊢; exact hguard)
    simp only [hset, claimable, hguard, Bool.not_false, Bool.and_true, Bool.false_eq_true, if_false,
      if_true]
    rw [runAlone_send]
    have hget₁ : perform () (.get job.jobId) s₁ = (some job, s₁) := congrArg (·, s₁) hget
    simp only [hget₁, hpending, ne_eq, not_true_eq_false, if_false]
    have hrelease : runAlone (releaseClaim job.jobId) s₁ =
        (.ok none, { s with claims := Function.update s.claims job.jobId none }) := by
      rw [runAlone_releaseClaim]
      simp [s₁]
    cases hrun : job.runAt with
    | none =>
      have hdue : job.due s.clock = true := by simp [Job.due, hrun]
      simp only [hdue, if_true]
      exact runAlone_finishClaim ownerId leaseTtl s₁ job
    | some runAt =>
      have hnow : perform () .now s₁ = (s.clock, s₁) := rfl
      simp only
      rw [runAlone_send]
      simp only [hnow]
      by_cases hlate : s.clock < runAt
      · have hdue : job.due s.clock = false := by simpa [Job.due, hrun] using hlate
        simp only [hdue, Bool.false_eq_true, if_false, if_pos hlate]
        exact hrelease
      · have hdue : job.due s.clock = true := by simpa [Job.due, hrun] using hlate
        simp only [hdue, if_true, if_neg hlate]
        exact runAlone_finishClaim ownerId leaseTtl s₁ job

/-- What the loop of `claim_next` does: it claims the first candidate that is due and claimable. -/
theorem runAlone_claimLoop (current : Instant) {candidates : List Job}
    (hkeys : (candidates.map Job.jobId).Nodup)
    (hstored : ∀ j ∈ candidates, s.jobs.get j.jobId = some j ∧ j.status = .pending) :
    ∃ s', runAlone (claimLoop store ownerId leaseTtl current candidates) s =
        (.ok ((candidates.find? fun j => j.due current && claimable s j).map
          (Job.claimed · ownerId leaseTtl s.clock)), s') ∧
      s'.jobs = ((candidates.find? fun j => j.due current && claimable s j).map
        (Job.claimed · ownerId leaseTtl s.clock)).elim s.jobs s.jobs.put := by
  induction candidates generalizing s with
  | nil => exact ⟨s, rfl, rfl⟩
  | cons job rest ih =>
    rw [map_cons, nodup_cons] at hkeys
    obtain ⟨hget, hpending⟩ := hstored job mem_cons_self
    have hrest : ∀ j ∈ rest, s.jobs.get j.jobId = some j ∧ j.status = .pending := fun j hj =>
      hstored j (mem_cons_of_mem _ hj)
    unfold claimLoop
    cases hdue : job.due current with
    | false =>
      rw [List.find?_cons_of_neg (by simp [hdue])]
      exact ih hkeys.2 hrest
    | true =>
      have htry := runAlone_tryClaim store ownerId leaseTtl hget hpending
      cases hclaim : claimable s job with
      | true =>
        rw [List.find?_cons_of_pos (by simp [hdue, hclaim])]
        rw [if_pos hclaim] at htry
        refine ⟨afterClaim s store job (job.claimed ownerId leaseTtl s.clock), ?_, jobs_saved ..⟩
        exact runAlone_bind htry
      | false =>
        rw [List.find?_cons_of_neg (by simp [hclaim])]
        rw [hclaim] at htry
        -- the guards of the other candidates are as before
        obtain ⟨s₁, htry₁, hjobs, hclock, hclaims⟩ : ∃ s₁ : RedisServer Unit,
            runAlone (store.tryClaim job.jobId ownerId leaseTtl) s = (.ok none, s₁) ∧
              s₁.jobs = s.jobs ∧ s₁.clock = s.clock ∧
              ∀ id, id ≠ job.jobId → s₁.claims id = s.claims id := by
          cases hguard : guarded s job.jobId with
          | true =>
            rw [hguard] at htry
            exact ⟨s, htry, rfl, rfl, fun _ _ => rfl⟩
          | false =>
            rw [hguard] at htry
            exact ⟨_, htry, rfl, rfl, fun id hid => Function.update_of_ne hid ..⟩
        obtain ⟨s', hrun, hjobs'⟩ := ih (s := s₁) hkeys.2 (by rwa [hjobs])
        have hfind : (rest.find? fun j => j.due current && claimable s₁ j) =
            rest.find? fun j => j.due current && claimable s j := by
          refine List.find?_congr fun j hj => ?_
          have hne : j.jobId ≠ job.jobId := fun he => hkeys.1 (he ▸ mem_map_of_mem hj)
          rw [claimable, claimable, guarded, guarded, hclaims _ hne, hclock]
        rw [hfind, hclock] at hrun
        rw [hfind, hjobs, hclock] at hjobs'
        refine ⟨s', ?_, hjobs'⟩
        exact (runAlone_bind htry₁).trans hrun

/-- **When the Redis store claims the oldest due job**: no job is waiting, or among the hundred
oldest PENDING jobs is one that is due, also at the server's time, and not guarded, and is as old as
any waiting job. -/
theorem claimsOldest_claimNext (h : s.Indexed) (now : Option Instant) :
    (∃ out, (runAlone (store.claimNext ownerId leaseTtl now) s).1 = .ok out ∧
      ClaimsOldest ownerId leaseTtl (now.getD s.clock) s.clock s.jobs.rows out
        (runAlone (store.claimNext ownerId leaseTtl now) s).2.jobs.rows) ↔
    (∀ j ∈ s.jobs.rows, j.waiting (now.getD s.clock) = false) ∨
      ∃ job ∈ (s.listed .pending).take 100, job.due (now.getD s.clock) = true ∧
        claimable s job = true ∧
        ∀ j ∈ s.jobs.rows, j.waiting (now.getD s.clock) = true → job.createdAt ≤ j.createdAt := by
  have hsub : (s.listed .pending).take 100 ⊆ s.jobs.rows := fun j hj =>
    ((mem_listed h).mp (mem_of_mem_take hj)).1
  have hpending : ∀ j ∈ (s.listed .pending).take 100, j.status = .pending := fun j hj =>
    ((mem_listed h).mp (mem_of_mem_take hj)).2
  have hkeys : (((s.listed .pending).take 100).map Job.jobId).Nodup :=
    ((map_jobId_listed h .pending) ▸ s.nodup_members .pending).sublist
      ((take_sublist ..).map _)
  obtain ⟨s', hloop, hjobs⟩ := runAlone_claimLoop store ownerId leaseTtl (now.getD s.clock) hkeys
    fun j hj => ⟨mem_rows.mp (hsub hj), hpending j hj⟩
  let found := ((s.listed .pending).take 100).find? fun j =>
    j.due (now.getD s.clock) && claimable s j
  have hrun : runAlone (store.claimNext ownerId leaseTtl now) s =
      (.ok (found.map (Job.claimed · ownerId leaseTtl s.clock)), s') := by
    cases now with
    | none =>
      refine (runAlone_send ..).trans ?_
      exact (runAlone_bind (runAlone_listByStatus h .pending 100)).trans hloop
    | some current => exact (runAlone_bind (runAlone_listByStatus h .pending 100)).trans hloop
  have hiff : ClaimsOldest ownerId leaseTtl (now.getD s.clock) s.clock s.jobs.rows
      (found.map (Job.claimed · ownerId leaseTtl s.clock)) s'.jobs.rows ↔
        OldestFirst (now.getD s.clock) (fun j => j.due (now.getD s.clock) && claimable s j)
          ((s.listed .pending).take 100) s.jobs.rows := by
    refine claimsOldest_iff hsub ?_ s.jobs.nodup ?_ ?_
    · intro j hj hclaim
      have hdue := (Bool.and_eq_true_iff.mp hclaim).1
      simp [Job.waiting, hpending j hj, hdue]
    · intro hfind j
      rw [hfind] at hjobs
      rw [hjobs]
      rfl
    · intro job hfind j
      rw [hfind] at hjobs
      have hsaved : s'.jobs = (s.saved (job.claimed ownerId leaseTtl s.clock)).jobs :=
        hjobs.trans (jobs_saved ..).symm
      rw [hsaved, mem_rows_saved, Job.claimed_jobId]
  rw [hrun]
  constructor
  · rintro ⟨out, hout, hclaims⟩
    obtain rfl := Except.ok.inj hout
    refine (hiff.mp hclaims).imp_right ?_
    rintro ⟨pre, job, post, hsplit, -, hclaim, hold⟩
    obtain ⟨hdue, hclaim⟩ := Bool.and_eq_true_iff.mp hclaim
    exact ⟨job, by simp [hsplit], hdue, hclaim, hold⟩
  · intro hcase
    refine ⟨_, rfl, hiff.mpr (hcase.imp_right ?_)⟩
    rintro ⟨job, hjob, hdue, hclaim, hold⟩
    -- the first one that can be claimed is at least as old
    cases hfound : found with
    | none =>
      have hskip := List.find?_eq_none.mp hfound job hjob
      simp [hdue, hclaim] at hskip
    | some first =>
      obtain ⟨hfirst, pre, post, hsplit, hpre⟩ := List.find?_eq_some_iff_append.mp hfound
      have hpre' : ∀ j ∈ pre, (j.due (now.getD s.clock) && claimable s j) = false :=
        fun j hj => by simpa only [Bool.not_eq_true'] using hpre j hj
      refine ⟨pre, first, post, hsplit, hpre', hfirst,
        fun j hj hwait => le_trans ?_ (hold j hj hwait)⟩
      have horder := (pairwise_listed h .pending).sublist (take_sublist 100 _)
      rw [hsplit] at hjob horder
      rcases mem_append.mp hjob with hjob | hjob
      · have hskip := hpre job hjob
        simp [hdue, hclaim] at hskip
      · rcases mem_cons.mp hjob with rfl | hjob
        · exact le_refl _
        · have hle := (pairwise_cons.mp (pairwise_append.mp horder).2.1).1 job hjob
          rcases hle with hlt | ⟨heq, -⟩
          · exact hlt.le
          · exact heq.le

end RedisJobStore

/-! ## The default of the base class -/

/-- A backend with `try_claim`: a PENDING job that is due at the backend's time is claimed, any
other is left alone. -/
structure ClaimingStore (σ : Type) extends AbstractJobStore σ where
  clock : σ → Instant
  tryClaim : UUID → Option String → Option Duration → σ → Option Job × σ
  tryClaim_waiting : ∀ ownerId leaseTtl s, ∀ job ∈ jobs s, job.waiting (clock s) = true →
    ∃ s', tryClaim job.jobId ownerId leaseTtl s =
        (some (job.claimed ownerId leaseTtl (clock s)), s') ∧
      ∀ j, j ∈ jobs s' ↔
        j = job.claimed ownerId leaseTtl (clock s) ∨ j ∈ jobs s ∧ j.jobId ≠ job.jobId
  tryClaim_other : ∀ ownerId leaseTtl s, ∀ job ∈ jobs s, job.waiting (clock s) = false →
    tryClaim job.jobId ownerId leaseTtl s = (none, s)

namespace ClaimingStore

variable {σ : Type} (store : ClaimingStore σ) (ownerId : Option String)
  (leaseTtl : Option Duration) {s : σ}

/-- The loop of `claim_next`. -/
def claimLoop (current : Instant) : List Job → σ → Option Job × σ
  | [], s => (none, s)
  | candidate :: rest, s =>
    if candidate.due current then
      match store.tryClaim candidate.jobId ownerId leaseTtl s with
      | (some claimed, s) => (some claimed, s)
      | (none, s) => claimLoop current rest s
    else claimLoop current rest s

def claimNext (now : Option Instant) (s : σ) : Option Job × σ :=
  let candidates := store.listByStatus .pending 100 s
  store.claimLoop ownerId leaseTtl (now.getD (store.clock s)) candidates s

/-- What the loop of `claim_next` does. -/
theorem claimLoop_eq (current : Instant) {candidates : List Job}
    (hsub : candidates ⊆ store.jobs s) (hpending : ∀ j ∈ candidates, j.status = .pending) :
    ∃ s', store.claimLoop ownerId leaseTtl current candidates s =
        ((candidates.find? fun j => j.due current && j.due (store.clock s)).map
          (Job.claimed · ownerId leaseTtl (store.clock s)), s') ∧
      ((candidates.find? fun j => j.due current && j.due (store.clock s)) = none → s' = s) ∧
      ∀ job, (candidates.find? fun j => j.due current && j.due (store.clock s)) = some job →
        ∀ j, j ∈ store.jobs s' ↔ j = job.claimed ownerId leaseTtl (store.clock s) ∨
          j ∈ store.jobs s ∧ j.jobId ≠ job.jobId := by
  induction candidates with
  | nil => exact ⟨s, rfl, fun _ => rfl, by simp⟩
  | cons job rest ih =>
    obtain ⟨hjob, hrest⟩ := cons_subset.mp hsub
    have hpend := hpending job mem_cons_self
    have ih' := ih hrest fun j hj => hpending j (mem_cons_of_mem _ hj)
    unfold claimLoop
    cases hdue : job.due current with
    | false =>
      rw [List.find?_cons_of_neg (by simp [hdue])]
      exact ih'
    | true =>
      cases hclock : job.due (store.clock s) with
      | true =>
        rw [List.find?_cons_of_pos (by simp [hdue, hclock])]
        obtain ⟨s', htry, hmem⟩ := store.tryClaim_waiting ownerId leaseTtl s job hjob
          (by simp [Job.waiting, hpend, hclock])
        refine ⟨s', by simp [htry], by simp, ?_⟩
        rintro _ ⟨⟩
        exact hmem
      | false =>
        rw [List.find?_cons_of_neg (by simp [hclock])]
        have htry := store.tryClaim_other ownerId leaseTtl s job hjob
          (by simp [Job.waiting, hclock])
        simpa [htry] using ih'

/-- **When the default claims the oldest due job**: no job is waiting, or among the first hundred
PENDING jobs listed, the first that is due, also at the backend's time, is as old as any waiting
job. -/
theorem claimsOldest_claimNext (now : Option Instant) (s : σ) :
    ClaimsOldest ownerId leaseTtl (now.getD (store.clock s)) (store.clock s) (store.jobs s)
        (store.claimNext ownerId leaseTtl now s).1
        (store.jobs (store.claimNext ownerId leaseTtl now s).2) ↔
      OldestFirst (now.getD (store.clock s))
        (fun j => j.due (now.getD (store.clock s)) && j.due (store.clock s))
        ((store.listed s .pending).take 100) (store.jobs s) := by
  have hsub : (store.listed s .pending).take 100 ⊆ store.jobs s := fun j hj =>
    mem_of_mem_filter (mem_of_mem_take hj)
  have hpending : ∀ j ∈ (store.listed s .pending).take 100, j.status = .pending := fun j hj => by
    simpa using of_mem_filter (mem_of_mem_take hj)
  obtain ⟨s', hloop, hnone, hsome⟩ := store.claimLoop_eq ownerId leaseTtl
    (now.getD (store.clock s)) hsub hpending
  have hlist : store.listByStatus .pending 100 s = (store.listed s .pending).take 100 :=
    store.listByStatus_eq .pending 100 s (by decide)
  have hrun : store.claimNext ownerId leaseTtl now s = store.claimLoop ownerId leaseTtl
      (now.getD (store.clock s)) ((store.listed s .pending).take 100) s := by
    unfold claimNext
    rw [hlist]
  rw [hrun, hloop]
  refine claimsOldest_iff hsub (fun j hj hclaim => ?_) (store.nodup s) (fun hfind j => ?_) hsome
  · have hdue := (Bool.and_eq_true_iff.mp hclaim).1
    simp [Job.waiting, hpending j hj, hdue]
  · rw [hnone hfind]

end ClaimingStore

namespace InMemoryJobStore

theorem tryClaim_of_waiting (ownerId : Option String) (leaseTtl : Option Duration)
    (s : InMemoryJobStore × Instant) (job : Job) (hjob : job ∈ s.1.jobs.values)
    (hwait : job.waiting s.2 = true) : ∃ s' : InMemoryJobStore × Instant,
    ((s.1.tryClaim job.jobId ownerId leaseTtl s.2).1,
        (s.1.tryClaim job.jobId ownerId leaseTtl s.2).2, s.2) =
      (some (job.claimed ownerId leaseTtl s.2), s') ∧
    ∀ j, j ∈ s'.1.jobs.values ↔ j = job.claimed ownerId leaseTtl s.2 ∨
      j ∈ s.1.jobs.values ∧ j.jobId ≠ job.jobId := by
  obtain ⟨hpending, hdue⟩ := Bool.and_eq_true_iff.mp hwait
  have hclaim : s.1.tryClaim job.jobId ownerId leaseTtl s.2 =
      (some (job.claimed ownerId leaseTtl s.2), s.1.put (job.claimed ownerId leaseTtl s.2)) :=
    tryClaim_some.mpr ⟨job, mem_values.mp hjob, of_decide_eq_true hpending, hdue, rfl, rfl⟩
  refine ⟨(s.1.put (job.claimed ownerId leaseTtl s.2), s.2), by rw [hclaim], fun j => ?_⟩
  rw [mem_values_put, Job.claimed_jobId]

theorem tryClaim_of_not_waiting (ownerId : Option String) (leaseTtl : Option Duration)
    (s : InMemoryJobStore × Instant) (job : Job) (hjob : job ∈ s.1.jobs.values)
    (hwait : job.waiting s.2 = false) :
    ((s.1.tryClaim job.jobId ownerId leaseTtl s.2).1,
        (s.1.tryClaim job.jobId ownerId leaseTtl s.2).2, s.2) = (none, s) := by
  cases hclaim : s.1.tryClaim job.jobId ownerId leaseTtl s.2 with
  | mk out s' =>
    cases out with
    | none => rw [tryClaim_none hclaim]
    | some c =>
      obtain ⟨job', hget, hpending, hdue, -⟩ := tryClaim_some.mp hclaim
      obtain rfl := Option.some.inj (hget.symm.trans (mem_values.mp hjob))
      simp [Job.waiting, hpending, hdue] at hwait

def claimingBackend : ClaimingStore (InMemoryJobStore × Instant) where
  jobs s := s.1.jobs.values
  listByStatus status limit s := s.1.listByStatus status limit
  delete id s := (s.1.delete id, s.2)
  nodup s := nodup_jobId_values s.1
  listByStatus_eq status n s := listByStatus_eq_take status n s.1
  jobs_delete id s := values_delete id s.1
  clock := Prod.snd
  tryClaim id ownerId leaseTtl s :=
    ((s.1.tryClaim id ownerId leaseTtl s.2).1, (s.1.tryClaim id ownerId leaseTtl s.2).2, s.2)
  tryClaim_waiting := tryClaim_of_waiting
  tryClaim_other := tryClaim_of_not_waiting

end InMemoryJobStore

/-! ## Recovery -/

namespace JobRunner

open Py

/-- A program of a runner that nothing else interrupts, at the clock reading `t`. -/
def runAlone {α : Type} (t : Instant) : Prog Cmd Cmd.Res α → World ℕ → Option (α × World ℕ)
  | .ret a, w => some (a, w)
  | .cmd c k, w => (World.exec 0 { clock := t } c w).bind fun out => runAlone t (k out.1) out.2

/-- The job is one that `recover` is there for: waiting, with a payload whose task is registered. -/
def Recoverable (registry : TaskRegistry) (t : Instant) (job : Job) : Prop :=
  job.waiting t = true ∧ ∃ payload, job.taskPayload = some payload ∧
    registry.registered payload.taskName = true

/-- The jobs that `recover` fetches. -/
def fetched (s : InMemoryJobStore) : List Job :=
  (s.jobs.values.filter (·.status = .pending)).take 100

variable {r : JobRunner} {registry : TaskRegistry} {t : Instant} {w w' : World ℕ} {job : Job}
  {out : Except Exc ℕ}

/-- What `recover` promises for a job: if it is recoverable, it was claimed, and a task was created
for its copy; otherwise it has the status it had. -/
structure Recovered (r : JobRunner) (registry : TaskRegistry) (t : Instant) (w w' : World ℕ)
    (job : Job) : Prop where
  resubmitted : Recoverable registry t job →
    w'.store.get job.jobId = some (job.claimed none none t) ∧
      ∃ n, (n, Task.runClaimedJob r (job.claimed none none t)) ∈
        w'.scheduled.drop w.scheduled.length
  unchanged : ¬Recoverable registry t job →
    ∃ job', w'.store.get job.jobId = some job' ∧ job'.status = job.status

theorem runAlone_tryClaim (hw : w.clock = t) (id : UUID) (f : Option Job → Py ℕ) :
    runAlone t (store (.tryClaim id none none) >>= f : Py ℕ) w =
      runAlone t (f (w.store.tryClaim id none none t).1 : Py ℕ)
        { w with store := (w.store.tryClaim id none none t).2 } := by
  subst hw
  change Option.bind (World.exec 0 { clock := w.clock } _ w) _ = _
  rw [World.exec, if_neg (lt_irrefl _)]
  rfl

theorem runAlone_createTask (hw : w.clock = t) (task : Task) (f : ℕ → Py ℕ) :
    runAlone t (call (.createTask task) >>= f : Py ℕ) w =
      runAlone t (f w.nextTask : Py ℕ)
        { w with
          scheduled := w.scheduled ++ [(w.nextTask, task)]
          nextTask := w.nextTask + 1
          tasks := w.tasks.set task.key w.nextTask } := by
  subst hw
  change Option.bind (World.exec 0 { clock := w.clock } _ w) _ = _
  rw [World.exec, if_neg (lt_irrefl _)]
  rfl

def afterRound (r : JobRunner) (t : Instant) (w : World ℕ) (job : Job) : World ℕ :=
  { w with
    store := w.store.put (job.claimed none none t)
    scheduled := w.scheduled ++ [(w.nextTask, .runClaimedJob r (job.claimed none none t))]
    nextTask := w.nextTask + 1
    tasks := w.tasks.set (Task.key (.runClaimedJob r (job.claimed none none t))) w.nextTask }

theorem claimed_taskPayload (job : Job) (ownerId : Option String) (leaseTtl : Option Duration)
    (t : Instant) : (job.claimed ownerId leaseTtl t).taskPayload = job.taskPayload := by
  cases leaseTtl <;> rfl

section

variable {rest : List Job} {n : ℕ} {payload : TaskPayload}

theorem recoverLoop_skip (hw : w.clock = t) (hget : w.store.get job.jobId = some job)
    (hwait : job.waiting t = false) :
    runAlone t (r.recoverLoop registry (job :: rest) n) w =
      runAlone t (r.recoverLoop registry rest n) w := by
  have hclaim : w.store.tryClaim job.jobId none none t = (none, w.store) := by
    have hother := InMemoryJobStore.tryClaim_of_not_waiting none none (w.store, t) job
      (InMemoryJobStore.mem_values.mpr hget) hwait
    obtain ⟨hout, hrest⟩ := Prod.mk.inj hother
    exact Prod.ext hout (congrArg Prod.fst hrest)
  rw [recoverLoop, runAlone_tryClaim hw, hclaim]

theorem tryClaim_eq_of_waiting (hget : w.store.get job.jobId = some job)
    (hwait : job.waiting t = true) : w.store.tryClaim job.jobId none none t =
      (some (job.claimed none none t), w.store.put (job.claimed none none t)) := by
  obtain ⟨hpending, hdue⟩ := Bool.and_eq_true_iff.mp hwait
  exact InMemoryJobStore.tryClaim_some.mpr
    ⟨job, hget, of_decide_eq_true hpending, hdue, rfl, rfl⟩

variable (hw : w.clock = t) (hget : w.store.get job.jobId = some job) (hwait : job.waiting t = true)
  (hpayload : job.taskPayload = some payload)

include hw hget hwait hpayload

theorem recoverLoop_unregistered (hreg : registry.registered payload.taskName = false) :
    runAlone t (r.recoverLoop registry (job :: rest) n) w =
      runAlone t (r.recoverLoop registry rest n)
        { w with store := w.store.put (job.claimed none none t) } := by
  have hclaimed : (job.claimed none none t).taskPayload = some payload :=
    (claimed_taskPayload ..).trans hpayload
  rw [recoverLoop, runAlone_tryClaim hw, tryClaim_eq_of_waiting hget hwait]
  simp only [hclaimed, hreg, Bool.false_eq_true, if_false]

theorem recoverLoop_raises {e : PyException} (hreg : registry.registered payload.taskName = true)
    (hinvoke : registry.invoke payload = .error e) :
    runAlone t (r.recoverLoop registry (job :: rest) n) w =
      some (.error (.error e), { w with store := w.store.put (job.claimed none none t) }) := by
  have hclaimed : (job.claimed none none t).taskPayload = some payload :=
    (claimed_taskPayload ..).trans hpayload
  rw [recoverLoop, runAlone_tryClaim hw, tryClaim_eq_of_waiting hget hwait]
  simp only [hclaimed, hreg, if_true, hinvoke]
  rfl

theorem recoverLoop_submits (hreg : registry.registered payload.taskName = true)
    (hinvoke : registry.invoke payload = .ok ()) :
    runAlone t (r.recoverLoop registry (job :: rest) n) w =
      runAlone t (r.recoverLoop registry rest (n + 1)) (afterRound r t w job) := by
  have hclaimed : (job.claimed none none t).taskPayload = some payload :=
    (claimed_taskPayload ..).trans hpayload
  rw [recoverLoop, runAlone_tryClaim hw, tryClaim_eq_of_waiting hget hwait]
  simp only [hclaimed, hreg, if_true, hinvoke]
  exact runAlone_createTask (w := { w with store := w.store.put (job.claimed none none t) }) hw
    (.runClaimedJob r (job.claimed none none t)) fun _ => r.recoverLoop registry rest (n + 1)

end

def Fetchable (s : InMemoryJobStore) (j : Job) : Prop :=
  s.get j.jobId = some j ∧ j.status = .pending ∧ j.taskPayload ≠ none

theorem get_put_claimed (s : InMemoryJobStore) (job : Job) (t : Instant) (id : UUID) :
    (s.put (job.claimed none none t)).get id =
      if id = job.jobId then some (job.claimed none none t) else s.get id := by
  rw [InMemoryJobStore.get_put, Job.claimed_jobId]

theorem fetchable_put {s : InMemoryJobStore} {rest : List Job}
    (hnot : job.jobId ∉ rest.map Job.jobId) (hrest : ∀ j ∈ rest, Fetchable s j) (t : Instant) :
    ∀ j ∈ rest, Fetchable (s.put (job.claimed none none t)) j := by
  intro j hj
  have hne : j.jobId ≠ job.jobId := fun he => hnot (he ▸ mem_map_of_mem hj)
  obtain ⟨hget, hother⟩ := hrest j hj
  exact ⟨by rw [get_put_claimed, if_neg hne, hget], hother⟩

/-- **The loop ends**, and leaves alone the jobs and the scheduled tasks of other ids. -/
theorem recoverLoop_ends (r : JobRunner) (registry : TaskRegistry) {jobs : List Job} (n : ℕ)
    (hw : w.clock = t) (hkeys : (jobs.map Job.jobId).Nodup)
    (hjobs : ∀ j ∈ jobs, Fetchable w.store j) :
    ∃ out w', runAlone t (r.recoverLoop registry jobs n) w = some (out, w') ∧
      (∀ id ∉ jobs.map Job.jobId, w'.store.get id = w.store.get id) ∧
        ∃ tasks, w'.scheduled = w.scheduled ++ tasks ∧
          ∀ p ∈ tasks, p.2.key.2 ∈ jobs.map Job.jobId := by
  induction jobs generalizing w n with
  | nil => exact ⟨.ok n, w, rfl, fun _ _ => rfl, [], by simp, by simp⟩
  | cons job rest ih =>
    rw [map_cons, nodup_cons] at hkeys
    obtain ⟨hget, hpending, hpayload⟩ := hjobs job mem_cons_self
    obtain ⟨payload, hpayload⟩ := Option.ne_none_iff_exists'.mp hpayload
    have hrest : ∀ j ∈ rest, Fetchable w.store j := fun j hj => hjobs j (mem_cons_of_mem _ hj)
    have hput := fetchable_put hkeys.1 hrest t
    have hother : ∀ id ∉ (job :: rest).map Job.jobId,
        (w.store.put (job.claimed none none t)).get id = w.store.get id := by
      intro id hid
      rw [get_put_claimed, if_neg fun he : id = job.jobId => hid (he ▸ mem_cons_self)]
    cases hwait : job.waiting t with
    | false =>
      obtain ⟨out, w', hrun, hframe, tasks, htasks, hids⟩ := ih n hw hkeys.2 hrest
      refine ⟨out, w', (recoverLoop_skip hw hget hwait).trans hrun, fun id hid => ?_, tasks, htasks,
        fun p hp => mem_cons_of_mem _ (hids p hp)⟩
      exact hframe id fun hmem => hid (mem_cons_of_mem _ hmem)
    | true =>
      cases hreg : registry.registered payload.taskName with
      | false =>
        obtain ⟨out, w', hrun, hframe, tasks, htasks, hids⟩ :=
          ih (w := { w with store := w.store.put (job.claimed none none t) }) n hw hkeys.2 hput
        refine ⟨out, w', (recoverLoop_unregistered hw hget hwait hpayload hreg).trans hrun,
          fun id hid => ?_, tasks, htasks, fun p hp => mem_cons_of_mem _ (hids p hp)⟩
        rw [hframe id fun hmem => hid (mem_cons_of_mem _ hmem)]
        exact hother id hid
      | true =>
        cases hinvoke : registry.invoke payload with
        | error e =>
          exact ⟨_, _, recoverLoop_raises hw hget hwait hpayload hreg hinvoke, hother, [], by simp,
            by simp⟩
        | ok u =>
          obtain ⟨out, w', hrun, hframe, tasks, htasks, hids⟩ :=
            ih (w := afterRound r t w job) (n + 1) hw hkeys.2 hput
          refine ⟨out, w', (recoverLoop_submits hw hget hwait hpayload hreg hinvoke).trans hrun,
            fun id hid => ?_,
            (w.nextTask, .runClaimedJob r (job.claimed none none t)) :: tasks, ?_, ?_⟩
          · rw [hframe id fun hmem => hid (mem_cons_of_mem _ hmem)]
            exact hother id hid
          · rw [htasks]
            simp [afterRound]
          · intro p hp
            rcases mem_cons.mp hp with rfl | hp
            · exact mem_cons.mpr (Or.inl (Job.claimed_jobId ..))
            · exact mem_cons_of_mem _ (hids p hp)

theorem recoverLoop_frame {jobs : List Job} {n : ℕ} (hw : w.clock = t)
    (hkeys : (jobs.map Job.jobId).Nodup) (hjobs : ∀ j ∈ jobs, Fetchable w.store j)
    (h : runAlone t (r.recoverLoop registry jobs n) w = some (out, w')) :
    (∀ id ∉ jobs.map Job.jobId, w'.store.get id = w.store.get id) ∧
      ∃ tasks, w'.scheduled = w.scheduled ++ tasks ∧
        ∀ p ∈ tasks, p.2.key.2 ∈ jobs.map Job.jobId := by
  obtain ⟨_, _, hrun, hframe⟩ := recoverLoop_ends r registry n hw hkeys hjobs
  rw [h] at hrun
  cases hrun
  exact hframe

/-- The task of the job can be created: it is registered, and its coroutine is made without an
exception. -/
def Submittable (registry : TaskRegistry) (job : Job) : Prop :=
  ∀ payload, job.taskPayload = some payload →
    registry.registered payload.taskName = true ∧ registry.invoke payload = .ok ()

/-- What was scheduled for other jobs before says nothing about a job. -/
theorem recovered_congr {w₁ : World ℕ} {j : Job} {entries tasks : List (ℕ × Task)}
    (hw₁ : w₁.scheduled = w.scheduled ++ entries) (hw' : w'.scheduled = w₁.scheduled ++ tasks)
    (hentries : ∀ p ∈ entries, p.2.key.2 ≠ j.jobId) :
    Recovered r registry t w w' j ↔ Recovered r registry t w₁ w' j := by
  have hdrop₁ : w'.scheduled.drop w₁.scheduled.length = tasks := by
    rw [hw', drop_left]
  have hdrop : w'.scheduled.drop w.scheduled.length = entries ++ tasks := by
    rw [hw', hw₁, append_assoc, drop_left]
  have hmem : ∀ n, (n, Task.runClaimedJob r (j.claimed none none t)) ∈ entries ++ tasks ↔
      (n, Task.runClaimedJob r (j.claimed none none t)) ∈ tasks := by
    intro n
    rw [mem_append]
    refine ⟨fun hor => hor.resolve_left fun hin => ?_, Or.inr⟩
    exact hentries _ hin (Job.claimed_jobId ..)
  constructor
  · rintro ⟨hresubmitted, hunchanged⟩
    refine ⟨fun hrec => ?_, hunchanged⟩
    obtain ⟨hget, n, hn⟩ := hresubmitted hrec
    rw [hdrop, hmem] at hn
    exact ⟨hget, n, hdrop₁ ▸ hn⟩
  · rintro ⟨hresubmitted, hunchanged⟩
    refine ⟨fun hrec => ?_, hunchanged⟩
    obtain ⟨hget, n, hn⟩ := hresubmitted hrec
    rw [hdrop₁, ← hmem] at hn
    exact ⟨hget, n, hdrop ▸ hn⟩

/-- **When the loop keeps its promise for the jobs it goes over**: the task of every waiting one can
be created. -/
theorem recoverLoop_iff {jobs : List Job} {n : ℕ} (hw : w.clock = t)
    (hkeys : (jobs.map Job.jobId).Nodup) (hjobs : ∀ j ∈ jobs, Fetchable w.store j)
    (h : runAlone t (r.recoverLoop registry jobs n) w = some (out, w')) :
    (∀ j ∈ jobs, Recovered r registry t w w' j) ↔
      ∀ j ∈ jobs, j.waiting t = true → Submittable registry j := by
  induction jobs generalizing w n with
  | nil => simp
  | cons job rest ih =>
    rw [map_cons, nodup_cons] at hkeys
    obtain ⟨hget, hpending, hpayload⟩ := hjobs job mem_cons_self
    obtain ⟨payload, hpayload⟩ := Option.ne_none_iff_exists'.mp hpayload
    have hrest : ∀ j ∈ rest, Fetchable w.store j := fun j hj =>
      hjobs j (mem_cons_of_mem _ hj)
    have hput := fetchable_put hkeys.1 hrest t
    have hrecoverable : Recoverable registry t job ↔
        job.waiting t = true ∧ registry.registered payload.taskName = true := by
      simp [Recoverable, hpayload]
    have hsubmittable : Submittable registry job ↔
        registry.registered payload.taskName = true ∧ registry.invoke payload = .ok () := by
      simp [Submittable, hpayload]
    rw [forall_mem_cons, forall_mem_cons, hsubmittable]
    cases hwait : job.waiting t with
    | false =>
      rw [recoverLoop_skip hw hget hwait] at h
      obtain ⟨hframe, -⟩ := recoverLoop_frame hw hkeys.2 hrest h
      have hjob : Recovered r registry t w w' job := by
        refine ⟨fun hrec => ?_, fun _ => ⟨job, by rw [hframe _ hkeys.1, hget], rfl⟩⟩
        simp [hrecoverable, hwait] at hrec
      simp [hjob, ih hw hkeys.2 hrest h]
    | true =>
      cases hreg : registry.registered payload.taskName with
      | false =>
        rw [recoverLoop_unregistered hw hget hwait hpayload hreg] at h
        obtain ⟨hframe, -⟩ := recoverLoop_frame
            (w := { w with store := w.store.put (job.claimed none none t) }) hw hkeys.2 hput h
        have hjob : ¬Recovered r registry t w w' job := by
          intro hrec
          obtain ⟨job', hget', hstatus⟩ := hrec.unchanged (by simp [hrecoverable, hreg])
          rw [hframe _ hkeys.1, get_put_claimed, if_pos rfl] at hget'
          obtain rfl := Option.some.inj hget'
          rw [Job.claimed_status, hpending] at hstatus
          cases hstatus
        simp [hjob]
      | true =>
        have hrecjob : Recoverable registry t job := hrecoverable.mpr ⟨hwait, hreg⟩
        cases hinvoke : registry.invoke payload with
        | error e =>
          rw [recoverLoop_raises hw hget hwait hpayload hreg hinvoke] at h
          cases h
          have hjob : ¬Recovered r registry t w
              { w with store := w.store.put (job.claimed none none t) } job := by
            intro hrec
            obtain ⟨-, n, hn⟩ := hrec.resubmitted hrecjob
            simp at hn
          simp [hjob]
        | ok u =>
          rw [recoverLoop_submits hw hget hwait hpayload hreg hinvoke] at h
          obtain ⟨hframe, tasks, htasks, -⟩ := recoverLoop_frame
            (w := afterRound r t w job) hw hkeys.2 hput h
          have hscheduled : (afterRound r t w job).scheduled = w.scheduled ++
              [(w.nextTask, .runClaimedJob r (job.claimed none none t))] := rfl
          have hjob : Recovered r registry t w w' job := by
            refine ⟨fun _ => ⟨?_, w.nextTask, ?_⟩, fun hnot => absurd hrecjob hnot⟩
            · rw [hframe _ hkeys.1]
              exact (get_put_claimed ..).trans (if_pos rfl)
            · rw [htasks, hscheduled, append_assoc, drop_left]
              exact mem_cons_self
          have hall : (∀ j ∈ rest, Recovered r registry t w w' j) ↔
              ∀ j ∈ rest, Recovered r registry t (afterRound r t w job) w' j := by
            refine forall₂_congr fun j hj => recovered_congr hscheduled htasks ?_
            intro p hp
            obtain rfl := mem_singleton.mp hp
            have hne : j.jobId ≠ job.jobId := fun he => hkeys.1 (he ▸ mem_map_of_mem hj)
            exact fun he => hne (he.symm.trans (Job.claimed_jobId ..))
          rw [hall, ih (w := afterRound r t w job) hw hkeys.2 hput h]
          simp [hjob]

/-- **When `recover` keeps its promise**: the task of every waiting job with a payload among the
hundred PENDING jobs that it fetches can be created, and it fetches every recoverable job. -/
theorem recover_iff (r : JobRunner) (registry : TaskRegistry) (hw : w.clock = t) :
    (∃ out w', runAlone t (r.recover registry) w = some (out, w') ∧
      ∀ j ∈ w.store.jobs.values, Recovered r registry t w w' j) ↔
    (∀ j ∈ fetched w.store, j.waiting t = true → Submittable registry j) ∧
      ∀ j ∈ w.store.jobs.values, Recoverable registry t j → j ∈ fetched w.store := by
  let jobs := (fetched w.store).filter (·.taskPayload.isSome)
  have hsub : (fetched w.store).Sublist w.store.jobs.values :=
    (take_sublist ..).trans filter_sublist
  have hkeys : (jobs.map Job.jobId).Nodup :=
    w.store.nodup_jobId_values.sublist ((filter_sublist.trans hsub).map _)
  have hpending : ∀ j ∈ fetched w.store, j.status = .pending := fun j hj => by
    simpa using of_mem_filter (mem_of_mem_take hj)
  have hjobs : ∀ j ∈ jobs, Fetchable w.store j := by
    intro j hj
    obtain ⟨hmem, hpayload⟩ := mem_filter.mp hj
    refine ⟨InMemoryJobStore.mem_values.mp (hsub.subset hmem), hpending j hmem, ?_⟩
    exact Option.isSome_iff_ne_none.mp hpayload
  have hrun : runAlone t (r.recover registry) w =
      runAlone t (r.recoverLoop registry jobs 0) w := by
    have hlist : w.store.listByStatus .pending 100 = fetched w.store :=
      InMemoryJobStore.listByStatus_eq_take .pending 100 w.store (by decide)
    subst hw
    change Option.bind (World.exec 0 { clock := w.clock } _ w) _ = _
    rw [World.exec, if_neg (lt_irrefl _)]
    change runAlone w.clock (r.recoverLoop registry ((w.store.listByStatus .pending 100).filter
      (·.taskPayload.isSome)) 0) w = _
    rw [hlist]
  obtain ⟨out, w', hout, hframe, -⟩ := recoverLoop_ends r registry 0 hw hkeys hjobs
  have hiff := recoverLoop_iff hw hkeys hjobs hout
  -- a job that is not gone over stays as it is
  have hkeep : ∀ j ∈ w.store.jobs.values, j ∉ jobs → w'.store.get j.jobId = some j := by
    intro j hj hnot
    rw [hframe j.jobId, InMemoryJobStore.mem_values.mp hj]
    intro hmem
    obtain ⟨i, hi, hid⟩ := mem_map.mp hmem
    have hsame := eq_of_key w.store.nodup_jobId_values
      (hsub.subset (mem_of_mem_filter hi)) hj hid
    exact hnot (hsame ▸ hi)
  have hgood : (∀ j ∈ jobs, j.waiting t = true → Submittable registry j) ↔
      ∀ j ∈ fetched w.store, j.waiting t = true → Submittable registry j := by
    constructor
    · intro h j hj hwait payload hpayload
      exact h j (mem_filter.mpr ⟨hj, by simp [hpayload]⟩) hwait payload hpayload
    · exact fun h j hj => h j (mem_of_mem_filter hj)
  rw [hrun, hout, ← hgood, ← hiff]
  constructor
  · rintro ⟨out', w'', hsame, hrec⟩
    obtain ⟨rfl, rfl⟩ := Prod.mk.inj (Option.some.inj hsame)
    refine ⟨fun j hj => hrec j (hsub.subset (mem_of_mem_filter hj)), fun j hj hrecj => ?_⟩
    by_contra hnot
    obtain ⟨hget, -⟩ := (hrec j hj).resubmitted hrecj
    have hcopy := hget.symm.trans (hkeep j hj fun hmem => hnot (mem_of_mem_filter hmem))
    have hstatus := congrArg Job.status (Option.some.inj hcopy)
    rw [Job.claimed_status] at hstatus
    simp [Recoverable, Job.waiting, ← hstatus] at hrecj
  · rintro ⟨hrec, hfetched⟩
    refine ⟨out, w', rfl, fun j hj => ?_⟩
    by_cases hmem : j ∈ jobs
    · exact hrec j hmem
    · refine ⟨fun hrecj => ?_, fun _ => ⟨j, hkeep j hj hmem, rfl⟩⟩
      obtain ⟨payload, hpayload, -⟩ := hrecj.2
      exact absurd (mem_filter.mpr ⟨hfetched j hj hrecj, by simp [hpayload]⟩) hmem

end JobRunner

/-! ## The claims of the three stores and the recovery -/

/-- **When eligible work is found, oldest first.** -/
theorem oldest_due_iff (memory : InMemoryJobStore) (redis : RedisServer Unit)
    (hredis : redis.Indexed) (config : RedisJobStore) {σ : Type} (store : ClaimingStore σ) (s : σ)
    (ownerId : Option String) (leaseTtl : Option Duration) (current : Instant)
    (now : Option Instant) (r : JobRunner) (registry : JobRunner.TaskRegistry) (w : World ℕ) :
    (ClaimsOldest ownerId leaseTtl current current memory.jobs.values
        (memory.claimNext ownerId leaseTtl current).1
        (memory.claimNext ownerId leaseTtl current).2.jobs.values ↔
      OldestFirst current (Job.waiting current) memory.jobs.values memory.jobs.values) ∧
    ((∃ out,
        (RedisJobStore.runAlone (config.claimNext ownerId leaseTtl now) redis).1 = .ok out ∧
        ClaimsOldest ownerId leaseTtl (now.getD redis.clock) redis.clock redis.jobs.rows out
          (RedisJobStore.runAlone (config.claimNext ownerId leaseTtl now) redis).2.jobs.rows) ↔
      (∀ j ∈ redis.jobs.rows, j.waiting (now.getD redis.clock) = false) ∨
        ∃ job ∈ (redis.listed .pending).take 100, job.due (now.getD redis.clock) = true ∧
          RedisJobStore.claimable redis job = true ∧
          ∀ j ∈ redis.jobs.rows, j.waiting (now.getD redis.clock) = true →
            job.createdAt ≤ j.createdAt) ∧
    (ClaimsOldest ownerId leaseTtl (now.getD (store.clock s)) (store.clock s) (store.jobs s)
        (store.claimNext ownerId leaseTtl now s).1
        (store.jobs (store.claimNext ownerId leaseTtl now s).2) ↔
      OldestFirst (now.getD (store.clock s))
        (fun j => j.due (now.getD (store.clock s)) && j.due (store.clock s))
        ((store.listed s .pending).take 100) (store.jobs s)) ∧
    ((∃ out w', JobRunner.runAlone w.clock (r.recover registry) w = some (out, w') ∧
        ∀ j ∈ w.store.jobs.values, JobRunner.Recovered r registry w.clock w w' j) ↔
      (∀ j ∈ JobRunner.fetched w.store, j.waiting w.clock = true →
          JobRunner.Submittable registry j) ∧
        ∀ j ∈ w.store.jobs.values, JobRunner.Recoverable registry w.clock j →
          j ∈ JobRunner.fetched w.store) :=
  ⟨memory.claimsOldest_claimNext ownerId leaseTtl current,
    RedisJobStore.claimsOldest_claimNext config ownerId leaseTtl hredis now,
    store.claimsOldest_claimNext ownerId leaseTtl now s, JobRunner.recover_iff r registry rfl⟩

def scheduledJob : Job := { jobId := 1, createdAt := 1, runAt := some 100 }

def olderDue : Job := { jobId := 2, createdAt := 2, taskPayload := some ⟨"report"⟩ }

def youngerDue : Job := { jobId := 3, createdAt := 3 }

def scheduledMemory : InMemoryJobStore :=
  ((InMemoryJobStore.empty.put scheduledJob).put olderDue).put youngerDue

/-- The youngest job was saved first. -/
def scheduledRedis : RedisServer Unit :=
  (({ jobs := KeyedMap.empty, clock := 10 } : RedisServer Unit).saved youngerDue
    |>.saved olderDue).saved scheduledJob

/-- The older of the due jobs is claimed from all three stores, and recovered. -/
theorem oldest_due_iff_scheduled :
    ClaimsOldest none none 10 10 scheduledMemory.jobs.values
        (scheduledMemory.claimNext none none 10).1
        (scheduledMemory.claimNext none none 10).2.jobs.values ∧
      (∃ out, (RedisJobStore.runAlone (RedisJobStore.claimNext {} none none none)
          scheduledRedis).1 = .ok out ∧
        ClaimsOldest none none 10 10 scheduledRedis.jobs.rows out
          (RedisJobStore.runAlone (RedisJobStore.claimNext {} none none none)
            scheduledRedis).2.jobs.rows) ∧
      ClaimsOldest none none 10 10 scheduledMemory.jobs.values
        (InMemoryJobStore.claimingBackend.claimNext none none none (scheduledMemory, 10)).1
        (InMemoryJobStore.claimingBackend.claimNext none none none
          (scheduledMemory, 10)).2.1.jobs.values ∧
      ∃ out w', JobRunner.runAlone 10 (JobRunner.recover {} ⟨fun _ => true, fun _ => .ok ()⟩)
          { store := scheduledMemory, clock := 10 } = some (out, w') ∧
        ∀ j ∈ scheduledMemory.jobs.values, JobRunner.Recovered {} ⟨fun _ => true, fun _ => .ok ()⟩
          10 { store := scheduledMemory, clock := 10 } w' j := by
  have hempty : RedisServer.Indexed ({ jobs := KeyedMap.empty, clock := 10 } : RedisServer Unit) :=
    RedisServer.indexed_of_index RedisServer.indexed_empty rfl rfl
  have hredis : scheduledRedis.Indexed := RedisServer.indexed_saved (RedisServer.indexed_saved
    (RedisServer.indexed_saved hempty _) _) _
  obtain ⟨hmemory, hserver, hdefault, hrecover⟩ := oldest_due_iff scheduledMemory scheduledRedis
    hredis {} InMemoryJobStore.claimingBackend (scheduledMemory, 10) none none 10 none {}
    ⟨fun _ => true, fun _ => .ok ()⟩ { store := scheduledMemory, clock := 10 }
  refine ⟨hmemory.mpr ?_, hserver.mpr ?_, hdefault.mpr ?_, hrecover.mpr ?_⟩
  · exact Or.inr ⟨[scheduledJob], olderDue, [youngerDue], rfl, by decide, by decide, by decide⟩
  · exact Or.inr ⟨olderDue, by decide, by decide, by decide, by decide⟩
  · exact Or.inr ⟨[scheduledJob], olderDue, [youngerDue], rfl, by decide, by decide, by decide⟩
  · exact ⟨fun _ _ _ _ _ => ⟨rfl, rfl⟩, fun _ hj _ => hj⟩

def youngerFirst : InMemoryJobStore :=
  (InMemoryJobStore.empty.put { jobId := 1, createdAt := 7 }).put { jobId := 2, createdAt := 3 }

/-- The in-memory store claims the younger of two due jobs; and `recover` makes a due job RUNNING
whose task is not registered. -/
theorem younger_claimed_first :
    ¬ClaimsOldest none none 10 10 youngerFirst.jobs.values (youngerFirst.claimNext none none 10).1
        (youngerFirst.claimNext none none 10).2.jobs.values ∧
      (JobRunner.runAlone 10 (JobRunner.recover {} ⟨fun _ => false, fun _ => .ok ()⟩)
          { store := .put .empty { jobId := 1, taskPayload := some ⟨"report"⟩ }, clock := 10 }).map
        (fun out => (out.2.store.get 1).map Job.status) = some (some .running) := by
  refine ⟨fun h => ?_, rfl⟩
  obtain ⟨job, hjob, -, hold, hcopy, -⟩ := h.some _ rfl
  have hcreated : 7 = job.createdAt := congrArg Job.createdAt hcopy
  have holder := hold { jobId := 2, createdAt := 3 } (by decide) (by decide)
  rw [← hcreated] at holder
  exact absurd holder (by decide)

end Varco
