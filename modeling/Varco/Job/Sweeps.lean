import Varco.Foundations.Sweep
import Varco.Job.Memory

/-!
# Bounded sweeps of a job store

`list_by_status`, `delete_where` and `reap_expired_leases` take a limit, and the documented way to
retire many jobs is to repeat a call until it reports that nothing was left. Here are the sweeps of
`InMemoryJobStore`, and the default `delete_where` that `AbstractJobStore` of `varco_core.job.base`
builds from the `list_by_status` and `delete` of a backend.

The in-memory store looks at the limit after it took a job, so a limit of zero takes one; otherwise
its sweeps are exact. The default fetches so many jobs of a status and filters them afterwards: a
job with enough others of its status before it is never deleted, however often the call is repeated.
-/

namespace Varco

open List

/-- A bounded delete took as many of the matching jobs as its limit allows. -/
def DeletesExactly (f : InMemoryJobStore.DeleteFilter) (n : ℕ) (before after : List Job)
    (out : Except PyException ℕ) : Prop :=
  ∃ gone, out = .ok gone.length ∧ SweptExactly f.matches (fun _ => none) n before after gone

/-- A bounded reap took as many of the expired leases as its limit allows. -/
def ReapsExactly (now : Instant) (n : ℕ) (before after reaped : List Job) : Prop :=
  ∃ gone, reaped = gone.map Job.reaped ∧
    SweptExactly (Job.leaseExpired · now) (fun j => some j.reaped) n before after gone

theorem settles_none (p : Job → Bool) : Settles p fun _ => none := by simp [Settles]

theorem settles_reaped (now : Instant) :
    Settles (Job.leaseExpired · now) fun j => some j.reaped := by
  rintro a b ⟨⟩
  exact Bool.eq_false_iff.mpr (InMemoryJobStore.not_leaseExpired_reaped a now)

/-- Of `c` jobs, a limit that is looked at after a job was taken allows too many only if it is
zero. -/
theorem min_max_one {n c : ℕ} : min (max 1 n) c = min n c ↔ 1 ≤ n ∨ c = 0 := by omega

/-! ## The in-memory store -/

namespace InMemoryJobStore

variable {s s' : InMemoryJobStore} {n : ℕ} {now : Instant} {f : DeleteFilter} {status : JobStatus}

theorem listLoop_eq (status : JobStatus) (n : ℕ) (jobs acc : List Job) :
    listLoop status n jobs acc =
      acc ++ (jobs.filter (·.status = status)).take (max 1 (n - acc.length)) := by
  induction jobs generalizing acc with
  | nil => simp [listLoop]
  | cons job jobs ih =>
    unfold listLoop
    by_cases hstatus : job.status = status
    · have hlength : (acc ++ [job]).length = acc.length + 1 := length_append
      rw [if_pos hstatus, filter_cons_of_pos (by simpa using hstatus)]
      by_cases hfull : (n : ℤ) ≤ (acc ++ [job]).length
      · rw [if_pos hfull, show max 1 (n - acc.length) = 1 by omega]
        rfl
      · rw [if_neg hfull, ih, hlength, append_assoc,
          show max 1 (n - acc.length) = max 1 (n - (acc.length + 1)) + 1 by omega]
        rfl
    · rw [if_neg hstatus, filter_cons_of_neg (by simpa using hstatus)]
      exact ih acc

theorem listByStatus_eq (s : InMemoryJobStore) (status : JobStatus) (n : ℕ) :
    s.listByStatus status n = (s.jobs.values.filter (·.status = status)).take (max 1 n) := by
  simpa [listByStatus] using listLoop_eq status n s.jobs.values []

/-- **A list is capped, but for a limit of zero.** -/
theorem length_listByStatus_le : (s.listByStatus status n).length ≤ n ↔
    1 ≤ n ∨ ∀ j ∈ s.jobs.values, j.status ≠ status := by
  have hnone : (∀ j ∈ s.jobs.values, j.status ≠ status) ↔
      (s.jobs.values.filter (·.status = status)).length = 0 := by
    simp [filter_eq_nil_iff]
  rw [hnone, listByStatus_eq, length_take]
  omega

theorem deleteLoop_eq (f : DeleteFilter) (n : ℕ) (jobs : List Job) (ids : List UUID) :
    deleteLoop f (some n) jobs ids =
      ids ++ ((jobs.filter f.matches).take (max 1 (n - ids.length))).map Job.jobId := by
  induction jobs generalizing ids with
  | nil => simp [deleteLoop]
  | cons job jobs ih =>
    unfold deleteLoop
    by_cases hmatch : f.matches job = true
    · have hlength : (ids ++ [job.jobId]).length = ids.length + 1 := length_append
      rw [if_pos hmatch, filter_cons_of_pos hmatch]
      by_cases hfull : (n : ℤ) ≤ (ids ++ [job.jobId]).length
      · rw [if_pos (by simpa using hfull), show max 1 (n - ids.length) = 1 by omega]
        rfl
      · rw [if_neg (by simpa using hfull), ih, hlength, append_assoc,
          show max 1 (n - ids.length) = max 1 (n - (ids.length + 1)) + 1 by omega]
        rfl
    · rw [if_neg hmatch, filter_cons_of_neg hmatch]
      exact ih ids

theorem get_deletes (ids : List UUID) (s : InMemoryJobStore) (id : UUID) :
    (ids.foldl delete s).get id = if id ∈ ids then none else s.get id := by
  induction ids generalizing s with
  | nil => simp
  | cons i ids ih =>
    rw [foldl_cons, ih, get_delete]
    by_cases hid : id ∈ ids
    · simp [hid]
    · simp [hid]

theorem deleteWhere_spec (s : InMemoryJobStore) (hf : f ≠ {}) (n : ℕ) : ∃ gone s',
    s.deleteWhere f (some n) = (.ok gone.length, s') ∧
      Swept f.matches (fun _ => none) s.jobs.values s'.jobs.values gone ∧
      gone.length = min (max 1 n) (s.jobs.values.countP f.matches) := by
  let gone := (s.jobs.values.filter f.matches).take (max 1 n)
  have hids : deleteLoop f (some n) s.jobs.values [] = gone.map Job.jobId := by
    simpa [gone] using deleteLoop_eq f n s.jobs.values []
  have hsub : gone.Sublist s.jobs.values := (take_sublist ..).trans filter_sublist
  refine ⟨gone, (gone.map Job.jobId).foldl delete s, ?_, ?_, ?_⟩
  · simp [deleteWhere, hf, hids]
  · refine .of_mem s.nodup_jobId_values (nodup_jobId_values _) (by simp)
      ((nodup_of_keys s.nodup_jobId_values).sublist hsub) hsub.subset ?_ fun b => ?_
    · intro a ha
      exact of_mem_filter (mem_of_mem_take ha)
    · rw [mem_values, get_deletes, mem_values]
      have hkey : b.jobId ∈ gone.map Job.jobId ∧ s.get b.jobId = some b →
          b ∈ gone := by
        rintro ⟨hid, hb⟩
        obtain ⟨a, ha, hab⟩ := mem_map.mp hid
        have heq := eq_of_key s.nodup_jobId_values (hsub.subset ha) (mem_values.mpr hb) hab
        exact heq ▸ ha
      by_cases hid : b.jobId ∈ gone.map Job.jobId
      · rw [if_pos hid]
        simpa using fun hb => hkey ⟨hid, hb⟩
      · have hnot : b ∉ gone := fun hb => hid (mem_map_of_mem hb)
        rw [if_neg hid]
        simp [hnot]
  · rw [length_take, countP_eq_length_filter]

/-- **A delete is exact, but for a limit of zero.** -/
theorem deletesExactly_iff (hf : f ≠ {}) :
    DeletesExactly f n s.jobs.values (s.deleteWhere f (some n)).2.jobs.values
      (s.deleteWhere f (some n)).1 ↔ 1 ≤ n ∨ ∀ j ∈ s.jobs.values, f.matches j = false := by
  obtain ⟨gone, s', hout, hswept, hlength⟩ := s.deleteWhere_spec hf n
  have hnone : (∀ j ∈ s.jobs.values, f.matches j = false) ↔
      s.jobs.values.countP f.matches = 0 := by simp [countP_eq_zero]
  rw [hout, hnone, ← min_max_one, ← hlength]
  constructor
  · rintro ⟨gone', hgone', hexact⟩
    rw [Except.ok.inj hgone', hexact.length]
  · intro hmin
    exact ⟨gone, rfl, hswept, hmin⟩

/-- **The loop of deletes ends with no match left.** -/
theorem drains_deleteWhere (s : InMemoryJobStore) (hf : f ≠ {}) (hn : 1 ≤ n) :
    ∃ s', Drains (fun s k s' => s.deleteWhere f (some n) = (.ok k, s')) s s' ∧
      ∀ j ∈ s'.jobs.values, f.matches j = false := by
  obtain ⟨s', hdrains⟩ : ∃ s', Drains (fun s k s' => s.deleteWhere f (some n) = (.ok k, s'))
      s s' := by
    refine Drains.exists_of_measure (P := fun _ => True)
      (m := fun s => s.jobs.values.countP f.matches) (fun s _ => ?_) trivial
    obtain ⟨gone, s', hout, hswept, -⟩ := s.deleteWhere_spec hf n
    have hcount := hswept.countP (settles_none _)
    exact ⟨gone.length, s', hout, trivial, by omega⟩
  obtain ⟨t, -, hlast⟩ := hdrains.last (P := fun _ => True) (fun _ _ => trivial) trivial
  refine ⟨s', hdrains, ?_⟩
  obtain ⟨gone, t', hout, hswept, hlength⟩ := t.deleteWhere_spec hf n
  obtain ⟨hzero, rfl⟩ := Prod.mk.inj (hlast.symm.trans hout)
  have hcount := hswept.countP (settles_none _)
  have hgone : gone.length = 0 := (Except.ok.inj hzero).symm
  have hnone : s'.jobs.values.countP f.matches = 0 := by omega
  simpa [countP_eq_zero] using hnone

theorem reapLoop_eq (now : Instant) (n : ℕ) (jobs : List Job) (s : InMemoryJobStore)
    (acc : List Job) :
    reapLoop now n jobs s acc =
      (acc ++ ((jobs.filter (·.leaseExpired now)).take (max 1 (n - acc.length))).map Job.reaped,
        (((jobs.filter (·.leaseExpired now)).take (max 1 (n - acc.length))).map
          Job.reaped).foldl put s) := by
  induction jobs generalizing s acc with
  | nil => simp [reapLoop]
  | cons job jobs ih =>
    unfold reapLoop
    by_cases hexp : job.leaseExpired now = true
    · have hlength : (acc ++ [job.reaped]).length = acc.length + 1 := length_append
      have hfilter : (job :: jobs).filter (·.leaseExpired now) =
          job :: jobs.filter (·.leaseExpired now) := filter_cons_of_pos hexp
      rw [if_pos hexp, hfilter]
      by_cases hfull : (n : ℤ) ≤ (acc ++ [job.reaped]).length
      · rw [if_pos hfull, show max 1 (n - acc.length) = 1 by omega]
        rfl
      · rw [if_neg hfull, ih, hlength, append_assoc,
          show max 1 (n - acc.length) = max 1 (n - (acc.length + 1)) + 1 by omega]
        rfl
    · have hfilter : (job :: jobs).filter (·.leaseExpired now) =
          jobs.filter (·.leaseExpired now) := filter_cons_of_neg hexp
      rw [if_neg hexp, hfilter]
      exact ih s acc

theorem get_puts {l : List Job} (hl : (l.map Job.jobId).Nodup) (s : InMemoryJobStore) (b : Job) :
    (l.foldl put s).get b.jobId = some b ↔
      b ∈ l ∨ b.jobId ∉ l.map Job.jobId ∧ s.get b.jobId = some b := by
  induction l generalizing s with
  | nil => simp
  | cons a l ih =>
    rw [map_cons, nodup_cons] at hl
    rw [foldl_cons, ih hl.2, get_put]
    by_cases hab : b.jobId = a.jobId
    · have hnot : b ∉ l := fun hb => hl.1 (hab ▸ mem_map_of_mem hb)
      have hid : b.jobId ∉ l.map Job.jobId := hab ▸ hl.1
      simp [hab, hnot, hl.1, eq_comm]
    · have hne : b ≠ a := fun h => hab (congrArg Job.jobId h)
      simp [hab, hne]

theorem reapExpiredLeases_spec (s : InMemoryJobStore) (now : Instant) (n : ℕ) : ∃ gone s',
    s.reapExpiredLeases now n = (gone.map Job.reaped, s') ∧
      Swept (Job.leaseExpired · now) (fun j => some j.reaped) s.jobs.values s'.jobs.values gone ∧
      gone.length = min (max 1 n) (s.jobs.values.countP (·.leaseExpired now)) := by
  let gone := (s.jobs.values.filter (·.leaseExpired now)).take (max 1 n)
  have hsub : gone.Sublist s.jobs.values := (take_sublist ..).trans filter_sublist
  have hkeys : (gone.map Job.jobId).Nodup := s.nodup_jobId_values.sublist (hsub.map _)
  have hreaped : (gone.map Job.reaped).map Job.jobId = gone.map Job.jobId := by
    rw [map_map]
    rfl
  refine ⟨gone, (gone.map Job.reaped).foldl put s, ?_, ?_, ?_⟩
  · simpa [gone, reapExpiredLeases] using reapLoop_eq now n s.jobs.values s []
  · refine .of_mem s.nodup_jobId_values (nodup_jobId_values _) (by rintro a _ ⟨⟩; rfl)
      (nodup_of_keys hkeys) hsub.subset ?_ fun b => ?_
    · intro a ha
      exact (mem_filter.mp (mem_of_mem_take ha)).2
    · rw [mem_values, get_puts (hreaped ▸ hkeys), hreaped, mem_values, mem_map]
      have hnot : s.get b.jobId = some b → (b.jobId ∉ gone.map Job.jobId ↔ b ∉ gone) := by
        refine fun hb => not_congr ⟨fun hid => ?_, mem_map_of_mem⟩
        obtain ⟨a, ha, hab⟩ := mem_map.mp hid
        have heq := eq_of_key s.nodup_jobId_values (hsub.subset ha) (mem_values.mpr hb) hab
        exact heq ▸ ha
      simp only [Option.some.injEq]
      rw [or_comm, and_comm, and_congr_right hnot]
  · rw [length_take, countP_eq_length_filter]

/-- **A reap is exact, but for a limit of zero.** -/
theorem reapsExactly_iff : ReapsExactly now n s.jobs.values
      (s.reapExpiredLeases now n).2.jobs.values (s.reapExpiredLeases now n).1 ↔
    1 ≤ n ∨ ∀ j ∈ s.jobs.values, j.leaseExpired now = false := by
  obtain ⟨gone, s', hout, hswept, hlength⟩ := s.reapExpiredLeases_spec now n
  have hnone : (∀ j ∈ s.jobs.values, j.leaseExpired now = false) ↔
      s.jobs.values.countP (·.leaseExpired now) = 0 := by simp [countP_eq_zero]
  rw [hout, hnone, ← min_max_one, ← hlength]
  constructor
  · rintro ⟨gone', hgone', hexact⟩
    have hsame := congrArg List.length hgone'
    rw [length_map, length_map] at hsame
    rw [hsame, hexact.length]
  · intro hmin
    exact ⟨gone, rfl, hswept, hmin⟩

/-- **The loop of reaps ends with no expired lease left.** -/
theorem drains_reapExpiredLeases (s : InMemoryJobStore) (now : Instant) (hn : 1 ≤ n) :
    ∃ s', Drains (fun s k s' => ∃ l, s.reapExpiredLeases now n = (l, s') ∧ l.length = k) s s' ∧
      ∀ j ∈ s'.jobs.values, j.leaseExpired now = false := by
  obtain ⟨s', hdrains⟩ : ∃ s', Drains
      (fun s k s' => ∃ l, s.reapExpiredLeases now n = (l, s') ∧ l.length = k) s s' := by
    refine Drains.exists_of_measure (P := fun _ => True)
      (m := fun s => s.jobs.values.countP (·.leaseExpired now)) (fun s _ => ?_) trivial
    obtain ⟨gone, s', hout, hswept, -⟩ := s.reapExpiredLeases_spec now n
    have hcount := hswept.countP (settles_reaped now)
    exact ⟨gone.length, s', ⟨_, hout, length_map _⟩, trivial, by omega⟩
  obtain ⟨t, -, l, hlast, hl⟩ := hdrains.last (P := fun _ => True) (fun _ _ => trivial) trivial
  refine ⟨s', hdrains, ?_⟩
  obtain ⟨gone, t', hout, hswept, hlength⟩ := t.reapExpiredLeases_spec now n
  obtain ⟨rfl, rfl⟩ := Prod.mk.inj (hlast.symm.trans hout)
  have hcount := hswept.countP (settles_reaped now)
  rw [length_map] at hl
  have hnone : s'.jobs.values.countP (·.leaseExpired now) = 0 := by omega
  simpa [countP_eq_zero] using hnone

end InMemoryJobStore

/-! ## The predicate of a sweep -/

def JobStatus.members : List JobStatus :=
  [.pending, .running, .completed, .failed, .cancelled, .dead]

theorem JobStatus.mem_members (status : JobStatus) : status ∈ members := by
  cases status <;> decide

namespace InMemoryJobStore.DeleteFilter

def statuses (f : DeleteFilter) : List JobStatus := f.status.getD JobStatus.members

def retires (f : DeleteFilter) (job : Job) : Bool :=
  f.completedBefore.all (fun t => job.completedAt.any (· < t)) &&
  f.expiresBefore.all (fun t => job.expiresAt.any (· < t))

theorem matches_iff {f : DeleteFilter} {job : Job} :
    f.matches job = true ↔ job.status ∈ f.statuses ∧ f.retires job = true := by
  have hstatus : f.status.all (fun l => decide (job.status ∈ l)) = true ↔
      job.status ∈ f.statuses := by
    unfold statuses
    cases f.status with
    | none => simp [JobStatus.mem_members]
    | some l => simp
  unfold «matches» retires
  rw [Bool.and_assoc, Bool.and_eq_true, hstatus]

end InMemoryJobStore.DeleteFilter

/-! ## Deleted jobs -/

/-- The jobs `gone` were deleted, and no others. -/
structure Gone (f : InMemoryJobStore.DeleteFilter) (before after gone : List Job) : Prop where
  jobs : after = before.filter (· ∉ gone)
  nodup : gone.Nodup
  subset : gone ⊆ before
  matched : ∀ j ∈ gone, f.retires j = true

namespace Gone

variable {f : InMemoryJobStore.DeleteFilter} {before after later gone gone' : List Job} {job : Job}

theorem refl (f : InMemoryJobStore.DeleteFilter) (before : List Job) : Gone f before before [] :=
  ⟨by simp, .nil, by simp, by simp⟩

theorem trans (h : Gone f before after gone) (h' : Gone f after later gone') :
    Gone f before later (gone ++ gone') := by
  have hafter : ∀ j ∈ gone', j ∈ before ∧ j ∉ gone := by
    intro j hj
    have hmem := h'.subset hj
    rw [h.jobs, mem_filter] at hmem
    simpa using hmem
  refine ⟨?_, ?_, ?_, ?_⟩
  · rw [h'.jobs, h.jobs, filter_filter]
    refine filter_congr fun j _ => ?_
    simp [Bool.and_comm]
  · exact nodup_append'.mpr ⟨h.nodup, h'.nodup, fun j hj hj' => (hafter j hj').2 hj⟩
  · exact append_subset.mpr ⟨h.subset, fun j hj => (hafter j hj).1⟩
  · exact fun j hj => (mem_append.mp hj).elim (h.matched j) (h'.matched j)

theorem of_filter (hkeys : (before.map Job.jobId).Nodup) (hjob : job ∈ before)
    (hretires : f.retires job = true) (h : after = before.filter (·.jobId ≠ job.jobId)) :
    Gone f before after [job] := by
  refine ⟨?_, nodup_singleton job, by simpa using hjob, by simpa using hretires⟩
  rw [h]
  refine filter_congr fun j hj => ?_
  have hkey : j.jobId = job.jobId ↔ j = job :=
    ⟨eq_of_key hkeys hj hjob, fun h => congrArg Job.jobId h⟩
  simp [hkey]

theorem swept (hkeys : (before.map Job.jobId).Nodup) (h : Gone f before after gone)
    (hmatched : ∀ j ∈ gone, f.matches j = true) :
    Swept f.matches (fun _ => none) before after gone := by
  have hafter : (after.map Job.jobId).Nodup := by
    rw [h.jobs]
    exact hkeys.sublist (filter_sublist.map _)
  refine .of_mem hkeys hafter (by simp) h.nodup h.subset hmatched fun j => ?_
  rw [h.jobs, mem_filter]
  simp

end Gone

/-! ## The default of the base class -/

/-- A backend that implements the abstract methods, for states `σ`: `jobs` are the stored jobs in
the order in which they are listed. -/
structure AbstractJobStore (σ : Type) where
  jobs : σ → List Job
  listByStatus : JobStatus → ℤ → σ → List Job
  delete : UUID → σ → σ
  nodup : ∀ s, ((jobs s).map Job.jobId).Nodup
  listByStatus_eq : ∀ status (n : ℕ) s, 0 < n →
    listByStatus status n s = ((jobs s).filter (·.status = status)).take n
  jobs_delete : ∀ id s, jobs (delete id s) = (jobs s).filter (·.jobId ≠ id)

namespace AbstractJobStore

open InMemoryJobStore (DeleteFilter noPredicate)

variable {σ : Type} (store : AbstractJobStore σ)

def perStatusFetch (limit : Option ℤ) : ℤ :=
  match limit with
  | some limit => max limit 1000
  | none => 10000

/-- The loop over the candidates of one status; a `return` inside it is an `error`. -/
def deleteCandidates (f : DeleteFilter) (limit : Option ℤ) :
    List Job → ℕ → σ → Except ℕ ℕ × σ
  | [], deleted, s => (.ok deleted, s)
  | job :: rest, deleted, s =>
    if limit.any (· ≤ (deleted : ℤ)) then (.error deleted, s)
    else if f.retires job then
      deleteCandidates f limit rest (deleted + 1) (store.delete job.jobId s)
    else deleteCandidates f limit rest deleted s

def deleteStatuses (f : DeleteFilter) (limit : Option ℤ) : List JobStatus → ℕ → σ → ℕ × σ
  | [], deleted, s => (deleted, s)
  | status :: rest, deleted, s =>
    let candidates := store.listByStatus status (perStatusFetch limit) s
    match store.deleteCandidates f limit candidates deleted s with
    | (.ok deleted, s) => deleteStatuses f limit rest deleted s
    | (.error deleted, s) => (deleted, s)

/-- Delete the jobs that match a predicate, at most `limit` of them; returns how many. -/
def deleteWhere (f : DeleteFilter) (limit : Option ℤ) (s : σ) : Except PyException ℕ × σ :=
  if f = {} then (.error noPredicate, s)
  else
    let out := store.deleteStatuses f limit f.statuses 0 s
    (.ok out.1, out.2)

def listed (s : σ) (status : JobStatus) : List Job := (store.jobs s).filter (·.status = status)

/-- How many jobs of a status a call with the limit `n` fetches. -/
def fetch (n : ℕ) : ℕ := max n 1000

theorem perStatusFetch_some (n : ℕ) : perStatusFetch (some n) = (fetch n : ℕ) := by
  change max (n : ℤ) 1000 = (max n 1000 : ℕ)
  omega

/-- The job is among those that a call with the limit `n` comes to: it lists a status as often as
the predicate names it. -/
def Visible (f : DeleteFilter) (n : ℕ) (s : σ) (job : Job) : Prop :=
  job ∈ (store.listed s job.status).take
    (reach (fetch n) f.retires (store.listed s job.status) (f.statuses.count job.status))

instance decidableVisible (f : DeleteFilter) (n : ℕ) (s : σ) (job : Job) :
    Decidable (store.Visible f n s job) := by
  unfold Visible
  infer_instance

variable {store} {f : DeleteFilter} {n : ℕ} {s s' : σ} {gone : List Job}

theorem listed_of_gone (h : Gone f (store.jobs s) (store.jobs s') gone) (status : JobStatus) :
    store.listed s' status = (store.listed s status).filter (· ∉ gone) := by
  unfold AbstractJobStore.listed
  rw [h.jobs, filter_filter, filter_filter]
  refine filter_congr fun j _ => ?_
  exact Bool.and_comm ..

theorem gone_delete {job : Job} (hjob : job ∈ store.jobs s) (hretires : f.retires job = true) :
    Gone f (store.jobs s) (store.jobs (store.delete job.jobId s)) [job] :=
  .of_filter (store.nodup s) hjob hretires (store.jobs_delete job.jobId s)

/-- What the loop over the candidates does: it stops at the limit, or deletes all that match. -/
theorem deleteCandidates_spec {candidates : List Job} (deleted : ℕ)
    (hnodup : candidates.Nodup) (hsub : candidates ⊆ store.jobs s) (hn : deleted ≤ n) :
    ∃ gone s' out, store.deleteCandidates f (some n) candidates deleted s = (out, s') ∧
      Gone f (store.jobs s) (store.jobs s') gone ∧ gone ⊆ candidates ∧
      (out = .error (deleted + gone.length) ∧ deleted + gone.length = n ∨
        out = .ok (deleted + gone.length) ∧ deleted + gone.length ≤ n ∧
          gone = candidates.filter f.retires) := by
  induction candidates generalizing s deleted with
  | nil => exact ⟨[], s, _, rfl, Gone.refl f (store.jobs s), by simp, Or.inr ⟨rfl, hn, rfl⟩⟩
  | cons job rest ih =>
    rw [nodup_cons] at hnodup
    have hjob : job ∈ store.jobs s := hsub mem_cons_self
    have hrest : rest ⊆ store.jobs s := fun j hj => hsub (mem_cons_of_mem _ hj)
    unfold deleteCandidates
    by_cases hfull : (n : ℤ) ≤ deleted
    · refine ⟨[], s, .error deleted, ?_, Gone.refl f (store.jobs s), by simp,
        Or.inl ⟨rfl, by simp; omega⟩⟩
      rw [if_pos (by simpa using hfull)]
    · rw [if_neg (by simpa using hfull)]
      cases hretires : f.retires job with
      | false =>
        obtain ⟨gone, s', out, hout, hgone, hsub', hend⟩ := ih deleted hnodup.2 hrest hn
        refine ⟨gone, s', out, hout, hgone, fun j hj => mem_cons_of_mem _ (hsub' hj), ?_⟩
        rwa [filter_cons_of_neg (by simp [hretires])]
      | true =>
        have hfirst := gone_delete (f := f) hjob hretires
        have hrest' : rest ⊆ store.jobs (store.delete job.jobId s) := by
          intro j hj
          rw [hfirst.jobs, mem_filter]
          have hne : j ≠ job := fun h => hnodup.1 (h ▸ hj)
          exact ⟨hrest hj, by simpa using hne⟩
        obtain ⟨gone, s', out, hout, hgone, hsub', hend⟩ :=
          ih (deleted + 1) hnodup.2 hrest' (by omega)
        refine ⟨job :: gone, s', out, hout, hfirst.trans hgone, ?_, ?_⟩
        · exact cons_subset.mpr ⟨mem_cons_self, fun j hj =>
            mem_cons_of_mem _ (hsub' hj)⟩
        · rw [filter_cons_of_pos hretires, length_cons,
            show deleted + (gone.length + 1) = deleted + 1 + gone.length by omega]
          exact hend.imp_right fun ⟨h₁, h₂, h₃⟩ => ⟨h₁, h₂, congrArg _ h₃⟩

theorem nodup_listed (store : AbstractJobStore σ) (s : σ) (status : JobStatus) :
    (store.listed s status).Nodup := (nodup_of_keys (store.nodup s)).filter _

/-- What the loop over the statuses does, from the state `t` that it has made of `s` by the statuses
`done`. -/
theorem deleteStatuses_spec (done rest : List JobStatus) {t : σ}
    (hstatuses : f.statuses = done ++ rest) (hgone : Gone f (store.jobs s) (store.jobs t) gone)
    (hvisible : ∀ j ∈ gone, store.Visible f n s j) (hn : gone.length ≤ n)
    (hlisted : ∀ status, store.listed t status =
      (leftover (fetch n) f.retires)^[done.count status] (store.listed s status)) :
    ∃ gone' t', store.deleteStatuses f (some n) rest gone.length t = (gone'.length, t') ∧
      Gone f (store.jobs s) (store.jobs t') gone' ∧ (∀ j ∈ gone', store.Visible f n s j) ∧
      gone'.length ≤ n ∧
      (gone'.length = n ∨ ∀ status, store.listed t' status =
        (leftover (fetch n) f.retires)^[f.statuses.count status] (store.listed s status)) := by
  induction rest generalizing done gone t with
  | nil =>
    rw [append_nil] at hstatuses
    exact ⟨gone, t, rfl, hgone, hvisible, hn, Or.inr fun status => hstatuses ▸ hlisted status⟩
  | cons status rest ih =>
    have hcandidates : store.listByStatus status (perStatusFetch (some n)) t =
        (store.listed t status).take (fetch n) := by
      rw [perStatusFetch_some]
      exact store.listByStatus_eq status (fetch n) t (by unfold fetch; omega)
    have hnodup : ((store.listed t status).take (fetch n)).Nodup :=
      (store.nodup_listed t status).sublist (take_sublist ..)
    have hsub : (store.listed t status).take (fetch n) ⊆ store.jobs t := fun j hj =>
      mem_of_mem_filter (mem_of_mem_take hj)
    obtain ⟨found, t₁, out, hout, hfound, hfoundsub, hend⟩ :=
      deleteCandidates_spec (f := f) gone.length hnodup hsub hn
    have hstatus : ∀ j ∈ found, j.status = status := fun j hj => by
      simpa using of_mem_filter (mem_of_mem_take (hfoundsub hj))
    have hvisible' : ∀ j ∈ gone ++ found, store.Visible f n s j := by
      intro j hj
      rcases mem_append.mp hj with hj | hj
      · exact hvisible j hj
      · have htake := hfoundsub hj
        rw [hlisted] at htake
        have hreach := mem_take_reach _ _ _ _ htake
        have hcount : done.count status + 1 ≤ f.statuses.count status := by
          rw [hstatuses, count_append, count_cons_self]
          omega
        unfold Visible
        rw [hstatus j hj]
        exact (take_sublist_take_left (reach_mono _ _ _ hcount)).subset hreach
    have hall := hgone.trans hfound
    have hlength : (gone ++ found).length = gone.length + found.length := length_append
    unfold deleteStatuses
    simp only [hcandidates, hout]
    rcases hend with ⟨rfl, hfull⟩ | ⟨rfl, hle, hfilter⟩
    · refine ⟨gone ++ found, t₁, ?_, hall, hvisible', by omega, Or.inl (by omega)⟩
      rw [hlength]
    · rw [← hlength]
      refine ih (done ++ [status]) (by simpa using hstatuses) hall hvisible' (by omega) ?_
      intro status'
      rw [listed_of_gone hfound, count_append]
      by_cases hsame : status' = status
      · subst hsame
        rw [hfilter, filter_notMem_take _ _ (store.nodup_listed t status'), hlisted,
          count_singleton_self, Function.iterate_succ_apply']
      · have hkeep : (store.listed t status').filter (· ∉ found) = store.listed t status' := by
          refine filter_eq_self.mpr fun j hj => ?_
          have hj' : j.status = status' := by simpa using of_mem_filter hj
          have hnot : j ∉ found := fun hmem => hsame (hj'.symm.trans (hstatus j hmem))
          simpa using hnot
        have hzero : [status].count status' = 0 :=
          count_eq_zero.mpr fun hmem => hsame (mem_singleton.mp hmem)
        rw [hkeep, hlisted, hzero, Nat.add_zero]

/-- **What the default does**: it deletes the visible matches, as many as the limit allows. -/
theorem deleteWhere_spec (store : AbstractJobStore σ) (hf : f ≠ {}) (n : ℕ) (s : σ) :
    ∃ gone s', store.deleteWhere f (some n) s = (.ok gone.length, s') ∧
      Gone f (store.jobs s) (store.jobs s') gone ∧
      (∀ j ∈ gone, f.matches j = true ∧ store.Visible f n s j) ∧ gone.length ≤ n ∧
      (gone.length = n ∨ ∀ j ∈ store.jobs s, f.matches j = true → store.Visible f n s j →
        j ∈ gone) := by
  obtain ⟨gone, s', hout, hgone, hvisible, hn, hend⟩ :=
    deleteStatuses_spec (n := n) [] f.statuses rfl
      (Gone.refl f (store.jobs s)) (by simp) (Nat.zero_le n) fun _ => rfl
  refine ⟨gone, s', ?_, hgone, fun j hj => ⟨?_, hvisible j hj⟩, hn, hend.imp_right ?_⟩
  · simp only [deleteWhere, if_neg hf]
    rw [← length_nil (α := Job), hout]
  · refine DeleteFilter.matches_iff.mpr ⟨?_, hgone.matched j hj⟩
    by_contra hnot
    have hmem := hvisible j hj
    rw [Visible, count_eq_zero.mpr hnot] at hmem
    simp [reach] at hmem
  · intro hlisted j hj hmatch hvis
    by_contra hnot
    have hleft : j ∈ store.listed s' j.status := by
      rw [listed, hgone.jobs]
      simp [hj, hnot]
    rw [hlisted, iterate_leftover, mem_append] at hleft
    have hnodup := store.nodup_listed s j.status
    rw [← take_append_drop (reach (fetch n) f.retires (store.listed s j.status)
      (f.statuses.count j.status)) (store.listed s j.status), nodup_append'] at hnodup
    rcases hleft with hleft | hleft
    · have hretires := (DeleteFilter.matches_iff.mp hmatch).2
      simp [hretires] at hleft
    · exact hnodup.2.2 hvis hleft

/-- **A delete of the default is exact** where every match is visible, or enough of them are. -/
theorem deletesExactly_iff (store : AbstractJobStore σ) (hf : f ≠ {}) (n : ℕ) (s : σ) :
    DeletesExactly f n (store.jobs s) (store.jobs (store.deleteWhere f (some n) s).2)
      (store.deleteWhere f (some n) s).1 ↔
    n ≤ (store.jobs s).countP (fun j => f.matches j && decide (store.Visible f n s j)) ∨
      ∀ j ∈ store.jobs s, f.matches j = true → store.Visible f n s j := by
  obtain ⟨gone, s', hout, hgone, hfound, hn, hend⟩ := store.deleteWhere_spec hf n s
  let seen := (store.jobs s).filter fun j => f.matches j && decide (store.Visible f n s j)
  have hseen : (store.jobs s).countP (fun j => f.matches j && decide (store.Visible f n s j)) =
      seen.length := countP_eq_length_filter
  have hsub : gone ⊆ seen := fun j hj =>
    mem_filter.mpr ⟨hgone.subset hj, by simpa using hfound j hj⟩
  have hle : gone.length ≤ seen.length := (subperm_of_subset hgone.nodup hsub).length_le
  have hlength : gone.length = min n seen.length := by
    rcases hend with hfull | hall
    · omega
    · have hback : seen ⊆ gone := by
        intro j hj
        have hmem := mem_filter.mp hj
        rw [Bool.and_eq_true, decide_eq_true_eq] at hmem
        exact hall j hmem.1 hmem.2.1 hmem.2.2
      have hseennodup : seen.Nodup := (nodup_of_keys (store.nodup s)).filter _
      have hge := (subperm_of_subset hseennodup hback).length_le
      omega
  have hfewer : seen.length ≤ (store.jobs s).countP f.matches := by
    rw [← hseen]
    exact countP_mono_left fun j _ hj => (Bool.and_eq_true_iff.mp hj).1
  have hequal : (∀ j ∈ store.jobs s, f.matches j = true → store.Visible f n s j) ↔
      seen.length = (store.jobs s).countP f.matches := by
    rw [← hseen]
    constructor
    · intro hall
      refine countP_congr fun j hj => ?_
      rw [Bool.and_eq_true, decide_eq_true_eq]
      exact ⟨fun h => h.1, fun h => ⟨h, hall j hj h⟩⟩
    · intro hsame j hj hmatch
      by_contra hnot
      have hlt : (store.jobs s).countP
          (fun j => f.matches j && decide (store.Visible f n s j)) <
            (store.jobs s).countP f.matches := by
        obtain ⟨pre, post, hsplit⟩ := append_of_mem hj
        have hpart : ∀ l : List Job,
            l.countP (fun j => f.matches j && decide (store.Visible f n s j)) ≤
              l.countP f.matches := fun l =>
          countP_mono_left fun j _ hj => (Bool.and_eq_true_iff.mp hj).1
        have hpre := hpart pre
        have hpost := hpart post
        rw [hsplit, countP_append, countP_append, countP_cons_of_pos hmatch,
          countP_cons_of_neg (by simp [hnot])]
        omega
      omega
  rw [hout, hseen, hequal]
  constructor
  · rintro ⟨gone', hgone', hexact⟩
    have hsame : gone.length = gone'.length := Except.ok.inj hgone'
    have hmin := hexact.length
    omega
  · intro hmin
    exact ⟨gone, rfl, hgone.swept (store.nodup s) fun j hj => (hfound j hj).1, by omega⟩

/-- So many jobs of its status that do not match are listed before a matching job that no call
comes to it. -/
def Starved (store : AbstractJobStore σ) (f : DeleteFilter) (n : ℕ) (s : σ) (job : Job) : Prop :=
  job ∈ store.jobs s ∧ f.matches job = true ∧
    Buried (fetch n) f.retires (store.listed s job.status) job

theorem starved_of_gone {job : Job} (h : Gone f (store.jobs s) (store.jobs s') gone)
    (hfound : ∀ j ∈ gone, f.matches j = true ∧ store.Visible f n s j) :
    store.Starved f n s' job ↔ store.Starved f n s job := by
  have hburied : job ∉ gone → (Buried (fetch n) f.retires (store.listed s' job.status) job ↔
      Buried (fetch n) f.retires (store.listed s job.status) job) := by
    intro hnot
    rw [listed_of_gone h]
    refine buried_filter (fun b _ hb => h.matched b (by simpa using hb)) (by simpa using hnot)
  unfold Starved
  constructor
  · rintro ⟨hjob, hmatch, hb⟩
    rw [h.jobs, mem_filter] at hjob
    have hnot : job ∉ gone := by simpa using hjob.2
    exact ⟨hjob.1, hmatch, (hburied hnot).mp hb⟩
  · rintro ⟨hjob, hmatch, hb⟩
    have hnot : job ∉ gone := fun hmem => hb.notMem_reach (hfound job hmem).2
    refine ⟨?_, hmatch, (hburied hnot).mpr hb⟩
    rw [h.jobs, mem_filter]
    exact ⟨hjob, by simpa using hnot⟩

/-- **The loop of the default ends, and leaves exactly the starved matches.** -/
theorem drains_deleteWhere (store : AbstractJobStore σ) (hf : f ≠ {}) (hn : 1 ≤ n) (s : σ) :
    ∃ s', Drains (fun s k s' => store.deleteWhere f (some n) s = (.ok k, s')) s s' ∧
      ((∀ j ∈ store.jobs s', f.matches j = false) ↔ ∀ j, ¬store.Starved f n s j) := by
  obtain ⟨s', hdrains⟩ : ∃ s',
      Drains (fun s k s' => store.deleteWhere f (some n) s = (.ok k, s')) s s' := by
    refine Drains.exists_of_measure (P := fun _ => True)
      (m := fun s => (store.jobs s).countP f.matches) (fun s _ => ?_) trivial
    obtain ⟨gone, s', hout, hgone, hfound, -⟩ := store.deleteWhere_spec hf n s
    have hcount := (hgone.swept (store.nodup s) fun j hj => (hfound j hj).1).countP (settles_none _)
    exact ⟨gone.length, s', hout, trivial, by omega⟩
  obtain ⟨t, hstarved, hlast⟩ := hdrains.last
    (P := fun t => ∀ j, store.Starved f n t j ↔ store.Starved f n s j)
    (fun {t k t'} ht hcall j => by
      obtain ⟨gone, t'', hout, hgone, hfound, -⟩ := store.deleteWhere_spec hf n t
      obtain ⟨-, rfl⟩ := Prod.mk.inj (hcall.symm.trans hout)
      rw [starved_of_gone hgone hfound, ht]) fun _ => Iff.rfl
  refine ⟨s', hdrains, ?_⟩
  -- the last call found nothing
  obtain ⟨gone, t', hout, hgone, hfound, -, hend⟩ := store.deleteWhere_spec hf n t
  obtain ⟨hzero, rfl⟩ := Prod.mk.inj (hlast.symm.trans hout)
  have hnil : gone = [] := eq_nil_of_length_eq_zero (Except.ok.inj hzero).symm
  subst hnil
  have hunseen : ∀ j ∈ store.jobs t, f.matches j = true → ¬store.Visible f n t j := by
    rcases hend with hfull | hall
    · exact absurd hfull (by simp; omega)
    · exact fun j hj hmatch hvis => absurd (hall j hj hmatch hvis) (by simp)
  have hleft : ∀ j ∈ store.jobs t, f.matches j = true → store.Starved f n t j := by
    intro j hj hmatch
    refine ⟨hj, hmatch, buried_of_window ?_ ?_ (DeleteFilter.matches_iff.mp hmatch).2⟩
    · intro b hb
      by_contra hretires
      have hmem := mem_of_mem_take hb
      have hbstatus : b.status = j.status := by simpa using of_mem_filter hmem
      have hstatuses := (DeleteFilter.matches_iff.mp hmatch).1
      refine hunseen b (mem_of_mem_filter hmem) ?_ ?_
      · exact DeleteFilter.matches_iff.mpr ⟨hbstatus ▸ hstatuses, by simpa using hretires⟩
      · unfold Visible
        rw [hbstatus]
        have hpos : 1 ≤ f.statuses.count j.status := count_pos_iff.mpr hstatuses
        refine (take_sublist_take_left (reach_mono _ _ _ hpos)).subset ?_
        simpa [reach] using hb
    · simpa [listed] using hj
  have hsame : store.jobs s' = store.jobs t := by
    rw [hgone.jobs]
    simp
  rw [hsame]
  constructor
  · intro hnone j hj
    have hj' := (hstarved j).mpr hj
    exact absurd hj'.2.1 (by simp [hnone j hj'.1])
  · intro hnone j hj
    by_contra hmatch
    exact hnone j ((hstarved j).mp (hleft j hj (by simpa using hmatch)))

end AbstractJobStore

namespace InMemoryJobStore

theorem listByStatus_eq_take (status : JobStatus) (n : ℕ) (s : InMemoryJobStore) (hn : 0 < n) :
    s.listByStatus status n = (s.jobs.values.filter (·.status = status)).take n := by
  rw [listByStatus_eq, Nat.max_eq_right hn]

theorem values_delete (id : UUID) (s : InMemoryJobStore) :
    (s.delete id).jobs.values = s.jobs.values.filter (·.jobId ≠ id) := by
  change (s.jobs.entries.filter (·.1 ≠ id)).map Prod.snd = _
  rw [Dict.values, filter_map]
  congr 1
  refine filter_congr fun e he => ?_
  have hkey : e.2.jobId = e.1 := s.keyed (Dict.mem_entries.mp he)
  simp [hkey]

/-- The in-memory store is a backend: it lists in the order of insertion. -/
def backend : AbstractJobStore InMemoryJobStore where
  jobs s := s.jobs.values
  listByStatus status limit s := s.listByStatus status limit
  delete id s := s.delete id
  nodup := nodup_jobId_values
  listByStatus_eq := listByStatus_eq_take
  jobs_delete := values_delete

end InMemoryJobStore

end Varco
