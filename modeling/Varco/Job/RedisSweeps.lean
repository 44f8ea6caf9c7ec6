import Varco.Job.Redis
import Varco.Job.Sweeps

/-!
# Bounded sweeps of the Redis job store

The sweeps of `RedisJobStore`, each on its own: nothing else is sent to the server meanwhile. The
store finds the jobs of a status by an index, so what a server holds is given by `Indexed`: the
index of a status lists the jobs of that status by their creation. Every write of the store keeps
it.

A listing asks for the positions up to `limit - 1`, so with a limit of zero it gets the whole index.
`delete_where` scans whole indexes and is exact; `reap_expired_leases` fetches `limit` RUNNING jobs
and filters them afterwards, so jobs whose leases have not expired keep later ones from being seen.
-/

namespace Varco

open List RedisJobStore

open InMemoryJobStore (DeleteFilter noPredicate)

namespace RedisServer

variable {ι : Type}

/-- `DEL` of a job key. -/
def delJob (s : RedisServer ι) (id : UUID) : RedisServer ι :=
  { s with
    jobs := s.jobs.erase id
    watched := fun i => (s.watched i).map fun (k, touched) => (k, touched || k = id) }

/-- `delete`: the job, and its entry in the index of its status. -/
def delete (s : RedisServer ι) (id : UUID) : RedisServer ι :=
  match s.jobs.get id with
  | some job => (s.zrem job.status id).delJob id
  | none => s.delJob id

/-- The loop over the index of one status; a `return` inside it is an `error`. -/
def deleteScan (f : DeleteFilter) (limit : Option ℤ) (status : JobStatus) :
    List UUID → ℕ → RedisServer ι → Except ℕ ℕ × RedisServer ι
  | [], deleted, s => (.ok deleted, s)
  | id :: rest, deleted, s =>
    if limit.any (· ≤ (deleted : ℤ)) then (.error deleted, s)
    else
      match s.jobs.get id with
      | none => deleteScan f limit status rest deleted (s.zrem status id)
      | some job =>
        if f.retires job then deleteScan f limit status rest (deleted + 1) (s.delete id)
        else deleteScan f limit status rest deleted s

def deleteStatuses (f : DeleteFilter) (limit : Option ℤ) :
    List JobStatus → ℕ → RedisServer ι → ℕ × RedisServer ι
  | [], deleted, s => (deleted, s)
  | status :: rest, deleted, s =>
    match s.deleteScan f limit status (zrangeSlice 0 (-1) (s.members status)) deleted with
    | (.ok deleted, s) => deleteStatuses f limit rest deleted s
    | (.error deleted, s) => (deleted, s)

/-- Delete the jobs that match a predicate, at most `limit` of them; returns how many. -/
def deleteWhere (s : RedisServer ι) (f : DeleteFilter) (limit : Option ℤ) :
    Except PyException ℕ × RedisServer ι :=
  if f = {} then (.error noPredicate, s)
  else
    let out := deleteStatuses f limit f.statuses 0 s
    (.ok out.1, out.2)

/-! ## What a server holds -/

/-- The index of a status lists the jobs of the status, each with the time of its creation. -/
def Indexed (s : RedisServer ι) : Prop :=
  ∀ status id score, (s.index status).get? id = some score ↔
    ∃ job, s.jobs.get id = some job ∧ job.status = status ∧ job.createdAt = score

def listed (s : RedisServer ι) (status : JobStatus) : List Job :=
  (s.members status).filterMap s.jobs.get

variable {s s' : RedisServer ι} {job j : Job} {id : UUID} {status : JobStatus}

theorem mem_rows : j ∈ s.jobs.rows ↔ s.jobs.get j.jobId = some j :=
  ⟨KeyedMap.get_of_mem, mem_of_find?_eq_some⟩

theorem mem_members (h : s.Indexed) :
    id ∈ s.members status ↔ ∃ job, s.jobs.get id = some job ∧ job.status = status := by
  have hentry : id ∈ s.members status ↔ ∃ score, (s.index status).get? id = some score := by
    simp only [members, mem_map, mem_insertionSort, Prod.exists, exists_and_right,
      exists_eq_right, Dict.mem_entries]
  rw [hentry]
  constructor
  · rintro ⟨score, hscore⟩
    obtain ⟨job, hget, hstatus, -⟩ := (h status id score).mp hscore
    exact ⟨job, hget, hstatus⟩
  · rintro ⟨job, hget, hstatus⟩
    exact ⟨job.createdAt, (h status id _).mpr ⟨job, hget, hstatus, rfl⟩⟩

theorem mem_listed (h : s.Indexed) : j ∈ s.listed status ↔ j ∈ s.jobs.rows ∧ j.status = status := by
  rw [listed, mem_filterMap, mem_rows]
  constructor
  · rintro ⟨id, hid, hget⟩
    obtain ⟨job, hjob, hstatus⟩ := (mem_members h).mp hid
    obtain rfl : j = job := Option.some.inj (hget.symm.trans hjob)
    exact ⟨s.jobs.keyed hget ▸ hget, hstatus⟩
  · rintro ⟨hget, hstatus⟩
    exact ⟨j.jobId, (mem_members h).mpr ⟨j, hget, hstatus⟩, hget⟩

theorem get_ne_none (h : s.Indexed) : ∀ id ∈ s.members status, s.jobs.get id ≠ none := by
  intro id hid
  obtain ⟨job, hget, -⟩ := (mem_members h).mp hid
  rw [hget]
  exact Option.some_ne_none job

theorem map_jobId_listed (h : s.Indexed) (status : JobStatus) :
    (s.listed status).map Job.jobId = s.members status :=
  KeyedMap.map_key_filterMap_get (get_ne_none h)

theorem nodup_listed (h : s.Indexed) (status : JobStatus) : (s.listed status).Nodup := by
  have hkeys := map_jobId_listed h status
  exact nodup_of_keys (hkeys ▸ s.nodup_members status)

/-! ## Every write keeps the indexes -/

theorem indexed_empty : Indexed ({ jobs := KeyedMap.empty } : RedisServer ι) := by
  intro status id score
  simp [KeyedMap.get, KeyedMap.empty]

theorem indexed_of_index (h : s.Indexed) (hjobs : s'.jobs = s.jobs) (hindex : s'.index = s.index) :
    s'.Indexed := by
  intro status id score
  rw [hindex, hjobs]
  exact h status id score

theorem get?_zadd (s : RedisServer ι) (status status' : JobStatus) (id id' : UUID)
    (score : Instant) : ((s.zadd status id score).index status').get? id' =
      if status' = status ∧ id' = id then some score else (s.index status').get? id' := by
  by_cases hstatus : status' = status
  · subst hstatus
    simp [zadd, Dict.get?_set]
  · simp [zadd, hstatus]

theorem get?_zrem (s : RedisServer ι) (status status' : JobStatus) (id id' : UUID) :
    ((s.zrem status id).index status').get? id' =
      if status' = status ∧ id' = id then none else (s.index status').get? id' := by
  by_cases hstatus : status' = status
  · subst hstatus
    simp [zrem, Dict.get?_erase]
  · simp [zrem, hstatus]

def saved (s : RedisServer ι) (job : Job) : RedisServer ι :=
  s.commit (((s.jobs.get job.jobId).map Job.status).getD job.status) job

theorem jobs_saved (s : RedisServer ι) (job : Job) : (s.saved job).jobs = s.jobs.put job :=
  jobs_commit ..

theorem get?_saved (s : RedisServer ι) (job : Job) (status : JobStatus) (id : UUID) :
    ((s.saved job).index status).get? id =
      if status = job.status ∧ id = job.jobId then some job.createdAt
      else if (s.jobs.get job.jobId).any (·.status = status) ∧ id = job.jobId then none
      else (s.index status).get? id := by
  unfold saved commit
  rw [get?_zadd]
  by_cases hnew : status = job.status ∧ id = job.jobId
  · rw [if_pos hnew, if_pos hnew]
  · rw [if_neg hnew, if_neg hnew]
    cases hget : s.jobs.get job.jobId with
    | none => simp [write]
    | some old =>
      by_cases hsame : old.status = job.status
      · have hnot : ¬((some old).any (·.status = status) = true ∧ id = job.jobId) := by
          rintro ⟨hold, hid⟩
          have hold' : old.status = status := by simpa using hold
          exact hnew ⟨hold'.symm.trans hsame, hid⟩
        rw [if_neg hnot]
        simp [hsame, write]
      · have hzrem := get?_zrem (s.write job) old.status status job.jobId id
        simp only [Option.map_some, Option.getD_some, ne_eq, not_false_eq_true,
          Option.any_some, decide_eq_true_eq, hsame, if_true]
        rw [hzrem]
        simp only [eq_comm, write]

/-- **A save keeps the indexes.** -/
theorem indexed_saved (h : s.Indexed) (job : Job) : (s.saved job).Indexed := by
  intro status id score
  rw [get?_saved, jobs_saved, KeyedMap.get_put]
  by_cases hid : id = job.jobId
  · subst hid
    by_cases hstatus : status = job.status
    · simp [hstatus]
    · have hnone : (if (s.jobs.get job.jobId).any (·.status = status) ∧ job.jobId = job.jobId
          then none else (s.index status).get? job.jobId) = none := by
        split_ifs with hold
        · rfl
        · rw [Option.eq_none_iff_forall_ne_some]
          intro score' hscore
          obtain ⟨job', hget, hstatus', -⟩ := (h status job.jobId score').mp hscore
          exact hold ⟨by simp [hget, hstatus'], rfl⟩
      rw [if_neg fun hand => hstatus hand.1, hnone]
      have hne : job.status ≠ status := fun he => hstatus he.symm
      simp [hne]
  · rw [if_neg fun hand => hid hand.2, if_neg fun hand => hid hand.2, if_neg hid]
    exact h status id score

/-- **A delete keeps the indexes.** -/
theorem indexed_delete (h : s.Indexed) (id : UUID) : (s.delete id).Indexed := by
  intro status id' score
  have hindex : ((s.delete id).index status).get? id' =
      if id' = id ∧ (s.jobs.get id).any (·.status = status) then none
      else (s.index status).get? id' := by
    unfold delete
    cases hget : s.jobs.get id with
    | none => simp [delJob]
    | some job =>
      refine (get?_zrem s job.status status id id').trans (if_congr ?_ rfl rfl)
      rw [Option.any_some, decide_eq_true_eq, and_comm, eq_comm (a := status)]
  have hjobs : (s.delete id).jobs = s.jobs.erase id := by
    unfold delete
    cases s.jobs.get id <;> rfl
  rw [hindex, hjobs, KeyedMap.get_erase]
  by_cases hid : id' = id
  · subst hid
    have hnone : (if id' = id' ∧ (s.jobs.get id').any (·.status = status) then none
        else (s.index status).get? id') = none := by
      split_ifs with hold
      · rfl
      · rw [Option.eq_none_iff_forall_ne_some]
        intro score' hscore
        obtain ⟨job, hget, hstatus, -⟩ := (h status id' score').mp hscore
        exact hold ⟨rfl, by simp [hget, hstatus]⟩
    rw [hnone]
    simp
  · rw [if_neg fun hand => hid hand.1, if_neg hid]
    exact h status id' score

theorem jobs_delete (s : RedisServer ι) (id : UUID) :
    (s.delete id).jobs.rows = s.jobs.rows.filter (·.jobId ≠ id) := by
  unfold delete
  cases s.jobs.get id <;> rfl

/-! ## Deleting -/

theorem zrangeSlice_all {α : Type} (l : List α) : zrangeSlice 0 (-1) l = l := by
  simp only [zrangeSlice]
  refine take_of_length_le ?_
  simp only [Int.lt_irrefl, if_false, Int.toNat_zero, drop_zero]
  omega

variable {f : DeleteFilter} {n : ℕ} {gone : List Job}

/-- What the loop over the index of one status does: it stops at the limit, or deletes all that
match. -/
theorem deleteScan_spec {ids : List UUID} (status : JobStatus) (deleted : ℕ) (h : s.Indexed)
    (hnodup : ids.Nodup)
    (hstored : ∀ id ∈ ids, ∃ job, s.jobs.get id = some job ∧ job.status = status)
    (hn : deleted ≤ n) :
    ∃ gone s' out, s.deleteScan f (some n) status ids deleted = (out, s') ∧
      Gone f s.jobs.rows s'.jobs.rows gone ∧ s'.Indexed ∧
      (∀ j ∈ gone, j.jobId ∈ ids ∧ j.status = status) ∧
      (out = .error (deleted + gone.length) ∧ deleted + gone.length = n ∨
        out = .ok (deleted + gone.length) ∧ deleted + gone.length ≤ n ∧
          ∀ j ∈ s.jobs.rows, j.jobId ∈ ids → f.retires j = true → j ∈ gone) := by
  induction ids generalizing s deleted with
  | nil => exact ⟨[], s, _, rfl, Gone.refl f _, h, by simp, Or.inr ⟨rfl, hn, by simp⟩⟩
  | cons id rest ih =>
    rw [nodup_cons] at hnodup
    obtain ⟨job, hget, hstatus⟩ := hstored id mem_cons_self
    obtain rfl : job.jobId = id := s.jobs.keyed hget
    have hrest : ∀ id ∈ rest, ∃ job, s.jobs.get id = some job ∧ job.status = status :=
      fun id hid => hstored id (mem_cons_of_mem _ hid)
    have hjob : job ∈ s.jobs.rows := mem_rows.mpr hget
    have hself : ∀ j ∈ s.jobs.rows, j.jobId = job.jobId → j = job := fun j hj hkey =>
      eq_of_key s.jobs.nodup hj hjob hkey
    unfold deleteScan
    by_cases hfull : (n : ℤ) ≤ deleted
    · refine ⟨[], s, .error deleted, ?_, Gone.refl f _, h, by simp, Or.inl ⟨rfl, by simp; omega⟩⟩
      rw [if_pos (by simpa using hfull)]
    · rw [if_neg (by simpa using hfull), hget]
      cases hretires : f.retires job with
      | false =>
        obtain ⟨gone, s', out, hout, hgone, hindexed, hin, hend⟩ := ih deleted h hnodup.2 hrest hn
        refine ⟨gone, s', out, ?_, hgone, hindexed, ?_, ?_⟩
        · simpa [hretires] using hout
        · exact fun j hj => ⟨mem_cons_of_mem _ (hin j hj).1, (hin j hj).2⟩
        · refine hend.imp_right fun ⟨h₁, h₂, h₃⟩ => ⟨h₁, h₂, fun j hj hid hmatch => ?_⟩
          rcases mem_cons.mp hid with hid | hid
          · rw [hself j hj hid, hretires] at hmatch
            cases hmatch
          · exact h₃ j hj hid hmatch
      | true =>
        have hfirst := Gone.of_filter s.jobs.nodup hjob hretires (jobs_delete s job.jobId)
        have hrest' : ∀ id ∈ rest, ∃ j, (s.delete job.jobId).jobs.get id = some j ∧
            j.status = status := by
          intro id hid
          obtain ⟨j, hj, hjstatus⟩ := hrest id hid
          refine ⟨j, ?_, hjstatus⟩
          obtain rfl : j.jobId = id := s.jobs.keyed hj
          have hne : j.jobId ≠ job.jobId := fun he => hnodup.1 (he ▸ hid)
          rw [← mem_rows, jobs_delete, mem_filter]
          exact ⟨mem_rows.mpr hj, by simpa using hne⟩
        obtain ⟨gone, s', out, hout, hgone, hindexed, hin, hend⟩ :=
          ih (deleted + 1) (indexed_delete h job.jobId) hnodup.2 hrest' (by omega)
        refine ⟨job :: gone, s', out, ?_, hfirst.trans hgone, hindexed, ?_, ?_⟩
        · simpa [hretires] using hout
        · intro j hj
          rcases mem_cons.mp hj with rfl | hj
          · exact ⟨mem_cons_self, hstatus⟩
          · exact ⟨mem_cons_of_mem _ (hin j hj).1, (hin j hj).2⟩
        · rw [length_cons,
            show deleted + (gone.length + 1) = deleted + 1 + gone.length by omega]
          refine hend.imp_right fun ⟨h₁, h₂, h₃⟩ => ⟨h₁, h₂, fun j hj hid hmatch => ?_⟩
          by_cases hsame : j = job
          · exact hsame ▸ mem_cons_self
          · have hne : j.jobId ≠ job.jobId := fun he => hsame (hself j hj he)
            refine mem_cons_of_mem _ (h₃ j ?_ ((mem_cons.mp hid).resolve_left hne) hmatch)
            rw [jobs_delete, mem_filter]
            exact ⟨hj, by simpa using hne⟩

theorem deleteStatuses_spec (rest : List JobStatus) (deleted : ℕ) (h : s.Indexed)
    (hn : deleted ≤ n) :
    ∃ gone s', deleteStatuses f (some n) rest deleted s = (deleted + gone.length, s') ∧
      Gone f s.jobs.rows s'.jobs.rows gone ∧ s'.Indexed ∧ (∀ j ∈ gone, j.status ∈ rest) ∧
      deleted + gone.length ≤ n ∧ (deleted + gone.length = n ∨
        ∀ j ∈ s.jobs.rows, j.status ∈ rest → f.retires j = true → j ∈ gone) := by
  induction rest generalizing s deleted with
  | nil => exact ⟨[], s, rfl, Gone.refl f _, h, by simp, hn, Or.inr (by simp)⟩
  | cons status rest ih =>
    obtain ⟨found, s₁, out, hout, hfound, hindexed, hin, hend⟩ :=
      deleteScan_spec (f := f) status deleted h (s.nodup_members status)
        (fun id hid => (mem_members h).mp hid) hn
    unfold deleteStatuses
    rw [zrangeSlice_all, hout]
    rcases hend with ⟨rfl, hfull⟩ | ⟨rfl, hle, hall⟩
    · refine ⟨found, s₁, rfl, hfound, hindexed, fun j hj => ?_, by omega, Or.inl hfull⟩
      exact (hin j hj).2 ▸ mem_cons_self
    · obtain ⟨gone, s', hrun, hgone, hindexed', hin', hle', hend'⟩ := ih _ hindexed hle
      have hlength : deleted + found.length + gone.length = deleted + (found ++ gone).length := by
        rw [length_append, Nat.add_assoc]
      rw [hlength] at hrun hle' hend'
      refine ⟨found ++ gone, s', hrun, hfound.trans hgone, hindexed', ?_, hle', ?_⟩
      · intro j hj
        rcases mem_append.mp hj with hj | hj
        · exact (hin j hj).2 ▸ mem_cons_self
        · exact mem_cons_of_mem _ (hin' j hj)
      · refine hend'.imp_right fun hall' j hj hstatus hmatch => mem_append.mpr ?_
        by_cases hmem : j ∈ found
        · exact Or.inl hmem
        · have hother : j.status ≠ status := fun he => hmem (hall j hj
            ((mem_members h).mpr ⟨j, mem_rows.mp hj, he⟩) hmatch)
          refine Or.inr (hall' j ?_ ((mem_cons.mp hstatus).resolve_left hother) hmatch)
          rw [hfound.jobs, mem_filter]
          exact ⟨hj, by simpa using hmem⟩

theorem deleteWhere_spec (h : s.Indexed) (hf : f ≠ {}) (n : ℕ) : ∃ gone s',
    s.deleteWhere f (some n) = (.ok gone.length, s') ∧ s'.Indexed ∧
      SweptExactly f.matches (fun _ => none) n s.jobs.rows s'.jobs.rows gone := by
  obtain ⟨gone, s', hout, hgone, hindexed, hin, hle, hend⟩ :=
    deleteStatuses_spec (f := f) (n := n) f.statuses 0 h (Nat.zero_le n)
  rw [Nat.zero_add] at hout hle hend
  have hmatched : ∀ j ∈ gone, f.matches j = true := fun j hj =>
    DeleteFilter.matches_iff.mpr ⟨hin j hj, hgone.matched j hj⟩
  have hswept := hgone.swept s.jobs.nodup hmatched
  have hcount := hswept.countP (settles_none _)
  refine ⟨gone, s', by simp only [deleteWhere, if_neg hf, hout], hindexed, hswept, ?_⟩
  rcases hend with hfull | hall
  · omega
  · have hzero : s'.jobs.rows.countP f.matches = 0 := by
      rw [countP_eq_zero, hgone.jobs]
      intro j hj hmatch
      have hj' := mem_filter.mp hj
      obtain ⟨hstatus, hretires⟩ := DeleteFilter.matches_iff.mp hmatch
      simpa [hall j hj'.1 hstatus hretires] using hj'.2
    omega

/-- **A delete is exact**, whatever the limit. -/
theorem deletesExactly_deleteWhere (h : s.Indexed) (hf : f ≠ {}) (n : ℕ) :
    DeletesExactly f n s.jobs.rows (s.deleteWhere f (some n)).2.jobs.rows
      (s.deleteWhere f (some n)).1 := by
  obtain ⟨gone, s', hout, -, hexact⟩ := deleteWhere_spec h hf n
  rw [hout]
  exact ⟨gone, rfl, hexact⟩

/-- **The loop of deletes ends with no match left.** -/
theorem drains_deleteWhere (h : s.Indexed) (hf : f ≠ {}) (hn : 1 ≤ n) :
    ∃ s', Drains (fun s k s' => s.deleteWhere f (some n) = (.ok k, s')) s s' ∧
      ∀ j ∈ s'.jobs.rows, f.matches j = false := by
  obtain ⟨s', hdrains⟩ : ∃ s', Drains (fun s k s' => s.deleteWhere f (some n) = (.ok k, s'))
      s s' := by
    refine Drains.exists_of_measure (P := Indexed)
      (m := fun s => s.jobs.rows.countP f.matches) (fun s hs => ?_) h
    obtain ⟨gone, s', hout, hindexed, hexact⟩ := deleteWhere_spec hs hf n
    have hcount := hexact.swept.countP (settles_none _)
    exact ⟨gone.length, s', hout, hindexed, by omega⟩
  obtain ⟨t, ht, hlast⟩ := hdrains.last (P := Indexed) (fun {t k t'} ht hcall => by
    obtain ⟨gone, t'', hout, hindexed, -⟩ := deleteWhere_spec ht hf n
    obtain ⟨-, rfl⟩ := Prod.mk.inj (hcall.symm.trans hout)
    exact hindexed) h
  refine ⟨s', hdrains, ?_⟩
  obtain ⟨gone, t', hout, -, hexact⟩ := deleteWhere_spec ht hf n
  obtain ⟨hzero, rfl⟩ := Prod.mk.inj (hlast.symm.trans hout)
  have hcount := hexact.swept.countP (settles_none _)
  have hlength := hexact.length
  have hgone : gone.length = 0 := (Except.ok.inj hzero).symm
  have hnone : s'.jobs.rows.countP f.matches = 0 := by omega
  simpa [countP_eq_zero] using hnone

end RedisServer

/-! ## Reaping -/

namespace RedisJobStore

open RedisServer

def runAlone {α : Type} (p : Rd α) (s : RedisServer Unit) :
    Except PyException α × RedisServer Unit :=
  Prog.eval (perform ()) p.run s

variable {s s' : RedisServer Unit} {n : ℕ} {α β : Type}

theorem runAlone_send (c : RedisCmd) (f : c.Res → Rd β) (s : RedisServer Unit) :
    runAlone (send c >>= f) s = runAlone (f (perform () c s).1) (perform () c s).2 := rfl

theorem runAlone_bind {p : Rd α} {f : α → Rd β} {a : α} (h : runAlone p s = (.ok a, s')) :
    runAlone (p >>= f) s = runAlone (f a) s' := Prog.eval_bindExcept_ok h

theorem runAlone_call (c : RedisCmd) (s : RedisServer Unit) :
    runAlone (send c) s = (.ok (perform () c s).1, (perform () c s).2) := rfl

theorem runAlone_saveUnfenced (s : RedisServer Unit) (job : Job) :
    runAlone (saveUnfenced job) s = (.ok (), s.saved job) := by
  unfold saveUnfenced saved
  rw [runAlone_send, runAlone_send]
  cases hget : s.jobs.get job.jobId with
  | none =>
    simp only [perform, hget, Option.map_none, Option.getD_none, commit, ne_eq, not_true,
      if_false]
    rfl
  | some old =>
    simp only [perform, hget, Option.map_some, Option.getD_some]
    by_cases hsame : old.status = job.status
    · rw [if_neg (not_not.mpr hsame), runAlone_call]
      simp [commit, hsame, perform]
    · rw [if_pos hsame, runAlone_send, runAlone_call]
      simp [commit, hsame, perform]

theorem zrangeSlice_limit {α : Type} (n : ℕ) (l : List α) :
    zrangeSlice 0 (n - 1) l = if n = 0 then l else l.take n := by
  cases n with
  | zero => exact zrangeSlice_all l
  | succ n =>
    have hstop : ¬((n + 1 : ℕ) : ℤ) - 1 < 0 := by omega
    simp only [zrangeSlice, Int.lt_irrefl, if_false, Int.toNat_zero, drop_zero, if_neg hstop,
      Nat.succ_ne_zero]
    congr 1
    omega

theorem filterMap_take {α β : Type} {f : α → Option β} {l : List α} (h : ∀ a ∈ l, f a ≠ none)
    (n : ℕ) : (l.take n).filterMap f = (l.filterMap f).take n := by
  induction l generalizing n with
  | nil => simp
  | cons a l ih =>
    obtain ⟨b, hb⟩ := Option.ne_none_iff_exists'.mp (h a mem_cons_self)
    cases n with
    | zero => rfl
    | succ n =>
      rw [take_succ_cons, filterMap_cons_some hb, filterMap_cons_some hb,
        take_succ_cons, ih fun a ha => h a (mem_cons_of_mem _ ha)]

theorem runAlone_getAll (ids : List UUID) (acc : List Job) (s : RedisServer Unit) :
    runAlone (getAll ids acc) s = (.ok (acc ++ ids.filterMap s.jobs.get), s) := by
  induction ids generalizing acc with
  | nil => simp only [getAll, filterMap_nil, append_nil]; rfl
  | cons id ids ih =>
    unfold getAll
    rw [runAlone_send]
    cases hget : s.jobs.get id with
    | none =>
      simp only [perform, hget, filterMap_cons_none hget]
      exact ih acc
    | some job =>
      simp only [perform, hget, filterMap_cons_some hget]
      rw [ih, append_assoc]
      rfl

/-- The jobs that a listing finds: with a limit of zero, all of them. -/
def window (s : RedisServer Unit) (status : JobStatus) (n : ℕ) : List Job :=
  if n = 0 then s.listed status else (s.listed status).take n

theorem runAlone_listByStatus (h : s.Indexed) (status : JobStatus) (n : ℕ) :
    runAlone (listByStatus status n) s = (.ok (window s status n), s) := by
  unfold listByStatus window
  rw [runAlone_send, runAlone_getAll]
  simp only [perform, zrangeSlice_limit, nil_append]
  split_ifs
  · rfl
  · rw [filterMap_take (get_ne_none h)]
    rfl

/-- **A list is capped, but for a limit of zero.** -/
theorem length_listByStatus_le (h : s.Indexed) {status : JobStatus} :
    (∃ jobs, (runAlone (listByStatus status n) s).1 = .ok jobs ∧ jobs.length ≤ n) ↔
      1 ≤ n ∨ ∀ j ∈ s.jobs.rows, j.status ≠ status := by
  rw [runAlone_listByStatus h]
  have hnone : (∀ j ∈ s.jobs.rows, j.status ≠ status) ↔ (s.listed status).length = 0 := by
    rw [length_eq_zero_iff, eq_nil_iff_forall_not_mem]
    refine forall_congr' fun j => ?_
    rw [mem_listed h]
    exact not_and.symm
  rw [hnone]
  constructor
  · rintro ⟨jobs, hjobs, hle⟩
    rw [← Except.ok.inj hjobs, window] at hle
    split_ifs at hle with hn
    · exact Or.inr (by omega)
    · exact Or.inl (by omega)
  · intro hcase
    refine ⟨_, rfl, ?_⟩
    unfold window
    split_ifs with hn
    · omega
    · exact length_take_le ..

def jobLe (a b : Job) : Prop := zsetLe (a.jobId, a.createdAt) (b.jobId, b.createdAt)

theorem zsetLe_trans {p q r : UUID × Instant} (h : zsetLe p q) (h' : zsetLe q r) : zsetLe p r := by
  rcases h with h | ⟨h, hid⟩
  · rcases h' with h' | ⟨h', -⟩
    · exact Or.inl (lt_trans h h')
    · exact Or.inl (h' ▸ h)
  · rcases h' with h' | ⟨h', hid'⟩
    · exact Or.inl (h ▸ h')
    · exact Or.inr ⟨h.trans h', BitVec.le_trans hid hid'⟩

theorem zsetLe_total (p q : UUID × Instant) : zsetLe p q ∨ zsetLe q p := by
  rcases lt_trichotomy p.2 q.2 with h | h | h
  · exact Or.inl (Or.inl h)
  · exact (BitVec.le_total p.1 q.1).imp (fun hid => Or.inr ⟨h, hid⟩) fun hid => Or.inr ⟨h.symm, hid⟩
  · exact Or.inr (Or.inl h)

instance zsetLe_isTrans : IsTrans (UUID × Instant) zsetLe := ⟨fun _ _ _ => zsetLe_trans⟩

instance zsetLe_isTotal : Std.Total (α := UUID × Instant) zsetLe := ⟨zsetLe_total⟩

theorem pairwise_listed (h : s.Indexed) (status : JobStatus) :
    (s.listed status).Pairwise jobLe := by
  unfold RedisServer.listed members
  rw [filterMap_map, pairwise_filterMap]
  refine (pairwise_insertionSort zsetLe (s.index status).entries).imp_of_mem ?_
  intro p q hp hq hle a ha b hb
  have hscore : ∀ e ∈ (s.index status).entries.insertionSort zsetLe, ∀ j,
      s.jobs.get e.1 = some j → (j.jobId, j.createdAt) = e := by
    intro e he j hj
    rw [mem_insertionSort] at he
    obtain ⟨job, hget, -, hcreated⟩ := (h status e.1 e.2).mp (Dict.mem_entries.mp he)
    obtain rfl : j = job := Option.some.inj (hj.symm.trans hget)
    rw [s.jobs.keyed hj, hcreated]
  unfold jobLe
  rw [hscore p hp a ha, hscore q hq b hb]
  exact hle

/-- What is taken from a listing leaves the rest in order. -/
theorem listed_eq_filter (h : s.Indexed) (h' : s'.Indexed) {status : JobStatus} {q : Job → Bool}
    (hmem : ∀ j, j ∈ s'.listed status ↔ j ∈ s.listed status ∧ q j = true) :
    s'.listed status = (s.listed status).filter q := by
  have hperm : (s'.listed status).Perm ((s.listed status).filter q) := by
    refine (perm_ext_iff_of_nodup (nodup_listed h' status)
      ((nodup_listed h status).filter q)).mpr fun j => ?_
    rw [hmem, mem_filter]
  refine hperm.eq_of_pairwise ?_ (pairwise_listed h' status) ((pairwise_listed h status).filter q)
  intro a b ha hb hab hba
  have hid : a.jobId = b.jobId := by
    rcases hab with hab | ⟨hcreated, hab⟩
    · rcases hba with hba | ⟨hba, -⟩
      · exact absurd hba (lt_asymm hab)
      · exact absurd hba (ne_of_gt hab)
    · rcases hba with hba | ⟨-, hba⟩
      · exact absurd hcreated (ne_of_gt hba)
      · exact BitVec.le_antisymm hab hba
  have hb' := (mem_listed h).mp (mem_of_mem_filter hb)
  have ha' := (mem_listed h).mp ((hmem a).mp ha).1
  exact eq_of_key s.jobs.nodup ha'.1 hb'.1 hid

def overdue (current : Instant) (job : Job) : Bool := job.leaseExpiresAt.any (· ≤ current)

theorem mem_rows_saved {job b : Job} : b ∈ (s.saved job).jobs.rows ↔
    b = job ∨ b ∈ s.jobs.rows ∧ b.jobId ≠ job.jobId := by
  rw [mem_rows, jobs_saved, KeyedMap.get_put]
  by_cases hid : b.jobId = job.jobId
  · have hne : ¬(b ∈ s.jobs.rows ∧ b.jobId ≠ job.jobId) := fun hand => hand.2 hid
    rw [if_pos hid, Option.some.injEq, eq_comm]
    exact ⟨Or.inl, fun hor => hor.resolve_right hne⟩
  · have hne : b ≠ job := fun he => hid (congrArg Job.jobId he)
    rw [if_neg hid, ← mem_rows]
    exact ⟨fun hb => Or.inr ⟨hb, hid⟩, fun hor => (hor.resolve_left hne).1⟩

theorem runAlone_reapLoop (current : Instant) {jobs : List Job} (acc : List Job) (h : s.Indexed)
    (hstored : jobs ⊆ s.jobs.rows) (hkeys : (jobs.map Job.jobId).Nodup) :
    ∃ s', runAlone (reapLoop current jobs acc) s =
        (.ok (acc ++ (jobs.filter (overdue current)).map Job.reaped), s') ∧ s'.Indexed ∧
      s'.clock = s.clock ∧
      ∀ b, b ∈ s'.jobs.rows ↔ b ∈ s.jobs.rows ∧ b ∉ jobs.filter (overdue current) ∨
        ∃ a ∈ jobs.filter (overdue current), a.reaped = b := by
  induction jobs generalizing s acc with
  | nil =>
    refine ⟨s, ?_, h, rfl, by simp⟩
    simp only [reapLoop, filter_nil, map_nil, append_nil]
    rfl
  | cons job rest ih =>
    rw [map_cons, nodup_cons] at hkeys
    obtain ⟨hjob, hrest⟩ := cons_subset.mp hstored
    have hother : ∀ j ∈ rest, j.jobId ≠ job.jobId := fun j hj he =>
      hkeys.1 (he ▸ mem_map_of_mem hj)
    unfold reapLoop
    cases hover : overdue current job with
    | false =>
      rw [if_neg (by simpa [overdue] using hover), filter_cons_of_neg (by simp [hover])]
      exact ih acc h hrest hkeys.2
    | true =>
      rw [if_pos (by simpa [overdue] using hover), filter_cons_of_pos hover]
      let s₁ := (perform () (.delClaim job.jobId) (s.saved job.reaped)).2
      have hrows : ∀ b, b ∈ s₁.jobs.rows ↔ b = job.reaped ∨
          b ∈ s.jobs.rows ∧ b.jobId ≠ job.jobId := fun b => mem_rows_saved
      have hindexed : s₁.Indexed := indexed_of_index (indexed_saved h job.reaped) rfl rfl
      have hrest' : rest ⊆ s₁.jobs.rows := fun j hj =>
        (hrows j).mpr (Or.inr ⟨hrest hj, hother j hj⟩)
      have hclock : s₁.clock = s.clock := by
        change (s.commit _ job.reaped).clock = _
        unfold commit
        split_ifs <;> rfl
      obtain ⟨s', hrun, hindexed', hclock', hmem⟩ :=
        ih (acc ++ [job.reaped]) hindexed hrest' hkeys.2
      refine ⟨s', ?_, hindexed', hclock'.trans hclock, fun b => ?_⟩
      · rw [runAlone_bind (runAlone_saveUnfenced s job.reaped), runAlone_send]
        refine hrun.trans ?_
        rw [map_cons, append_assoc]
        rfl
      · have hfilter : ∀ j ∈ rest.filter (overdue current), j.jobId ≠ job.jobId := fun j hj =>
          hother j (mem_of_mem_filter hj)
        rw [hmem, hrows]
        constructor
        · rintro (⟨rfl | ⟨hb, hid⟩, hnot⟩ | ⟨a, ha, rfl⟩)
          · exact Or.inr ⟨job, mem_cons_self, rfl⟩
          · refine Or.inl ⟨hb, ?_⟩
            rw [mem_cons, not_or]
            exact ⟨fun he => hid (congrArg Job.jobId he), hnot⟩
          · exact Or.inr ⟨a, mem_cons_of_mem _ ha, rfl⟩
        · rintro (⟨hb, hnot⟩ | ⟨a, ha, rfl⟩)
          · rw [mem_cons, not_or] at hnot
            have hid : b.jobId ≠ job.jobId := fun he =>
              hnot.1 (eq_of_key s.jobs.nodup hb hjob he)
            exact Or.inl ⟨Or.inr ⟨hb, hid⟩, hnot.2⟩
          · rcases mem_cons.mp ha with rfl | ha
            · exact Or.inl ⟨Or.inl rfl, fun hmem => hfilter _ hmem rfl⟩
            · exact Or.inr ⟨a, ha, rfl⟩

def reapable (s : RedisServer Unit) (current : Instant) (n : ℕ) : List Job :=
  (window s .running n).filter (·.leaseExpired current)

theorem window_subset (s : RedisServer Unit) (status : JobStatus) (n : ℕ) :
    (window s status n).Sublist (s.listed status) := by
  unfold window
  split_ifs
  · exact List.Sublist.refl _
  · exact take_sublist ..

variable {now : Option Instant}

theorem reapExpiredLeases_spec (h : s.Indexed) (now : Option Instant) (n : ℕ) : ∃ s',
    runAlone (reapExpiredLeases now n) s =
        (.ok ((reapable s (now.getD s.clock) n).map Job.reaped), s') ∧ s'.Indexed ∧
      s'.clock = s.clock ∧
      Swept (Job.leaseExpired · (now.getD s.clock)) (fun j => some j.reaped) s.jobs.rows
        s'.jobs.rows (reapable s (now.getD s.clock) n) := by
  have hsub := window_subset s .running n
  have hstored : window s .running n ⊆ s.jobs.rows := fun j hj =>
    ((mem_listed h).mp (hsub.subset hj)).1
  have hkeys : ((window s .running n).map Job.jobId).Nodup :=
    ((map_jobId_listed h .running) ▸ s.nodup_members .running).sublist (hsub.map _)
  obtain ⟨s', hrun, hindexed, hclock, hmem⟩ :=
    runAlone_reapLoop (now.getD s.clock) [] h hstored hkeys
  -- the jobs of the RUNNING index are RUNNING
  have hfilter : (window s .running n).filter (overdue (now.getD s.clock)) =
      reapable s (now.getD s.clock) n := by
    refine filter_congr fun j hj => ?_
    have hstatus := ((mem_listed h).mp (hsub.subset hj)).2
    simp [overdue, Job.leaseExpired, hstatus]
  rw [hfilter] at hrun hmem
  have hgone : reapable s (now.getD s.clock) n ⊆ s.jobs.rows := fun j hj =>
    hstored (mem_of_mem_filter hj)
  refine ⟨s', ?_, hindexed, hclock, ?_⟩
  · rw [nil_append] at hrun
    rw [← hrun]
    cases now with
    | none =>
      refine (runAlone_send ..).trans ?_
      exact runAlone_bind (runAlone_listByStatus h .running n)
    | some current => exact runAlone_bind (runAlone_listByStatus h .running n)
  · refine .of_mem s.jobs.nodup s'.jobs.nodup (by rintro a _ ⟨⟩; rfl)
      ((nodup_of_keys hkeys).filter _) hgone (fun j hj => (mem_filter.mp hj).2) fun b => ?_
    simpa using hmem b

/-- The RUNNING jobs with an expired lease are those of all jobs. -/
theorem countP_listed (h : s.Indexed) (current : Instant) :
    (s.listed .running).countP (·.leaseExpired current) =
      s.jobs.rows.countP (·.leaseExpired current) := by
  rw [countP_eq_length_filter, countP_eq_length_filter]
  refine List.Perm.length_eq ((perm_ext_iff_of_nodup ((nodup_listed h _).filter _)
    ((nodup_of_keys s.jobs.nodup).filter _)).mpr fun j => ?_)
  rw [mem_filter, mem_filter, mem_listed h]
  constructor
  · exact fun hand => ⟨hand.1.1, hand.2⟩
  · exact fun hand => ⟨⟨hand.1, (Job.leaseExpired_iff.mp hand.2).1⟩, hand.2⟩

/-- The first jobs of a list are as many of its `p` as fit exactly if all of them are, or no later
one is. -/
theorem countP_take_eq_min {α : Type} {p : α → Bool} {l : List α} {n : ℕ} :
    (l.take n).countP p = min n (l.countP p) ↔
      (∀ a ∈ l.take n, p a = true) ∨ ∀ a ∈ l.drop n, p a = false := by
  have hsplit : l.countP p = (l.take n).countP p + (l.drop n).countP p := by
    rw [← countP_append, take_append_drop]
  have hle : (l.take n).countP p ≤ (l.take n).length := countP_le_length
  have htake : (l.take n).length ≤ n := length_take_le ..
  have hall : (∀ a ∈ l.take n, p a = true) ↔ (l.take n).countP p = (l.take n).length :=
    countP_eq_length.symm
  have hnone : (∀ a ∈ l.drop n, p a = false) ↔ (l.drop n).countP p = 0 := by
    simp [countP_eq_zero]
  have hshort : (l.take n).length < n → (l.drop n).countP p = 0 := by
    intro hlt
    rw [length_take] at hlt
    rw [drop_eq_nil_of_le (by omega), countP_nil]
  rw [hall, hnone]
  constructor
  · intro hmin
    by_cases hfull : (l.take n).countP p = n
    · exact Or.inl (by omega)
    · exact Or.inr (by omega)
  · rintro (hfull | hzero)
    · by_cases hlt : (l.take n).length < n
      · have hzero := hshort hlt
        omega
      · omega
    · omega

/-- **When a reap is exact**: the limit is not zero, and the first RUNNING jobs have all expired or
no later one has. -/
theorem reapsExactly_iff (h : s.Indexed) :
    (∃ reaped, (runAlone (reapExpiredLeases now n) s).1 = .ok reaped ∧
      ReapsExactly (now.getD s.clock) n s.jobs.rows
        (runAlone (reapExpiredLeases now n) s).2.jobs.rows reaped) ↔
    (1 ≤ n ∨ ∀ j ∈ s.jobs.rows, j.leaseExpired (now.getD s.clock) = false) ∧
      ((∀ j ∈ (s.listed .running).take n, j.leaseExpired (now.getD s.clock) = true) ∨
        ∀ j ∈ (s.listed .running).drop n, j.leaseExpired (now.getD s.clock) = false) := by
  obtain ⟨s', hrun, -, -, hswept⟩ := reapExpiredLeases_spec h now n
  have hexact : (∃ reaped, (runAlone (reapExpiredLeases now n) s).1 = .ok reaped ∧
      ReapsExactly (now.getD s.clock) n s.jobs.rows
        (runAlone (reapExpiredLeases now n) s).2.jobs.rows reaped) ↔
      (reapable s (now.getD s.clock) n).length =
        min n ((s.listed .running).countP (·.leaseExpired (now.getD s.clock))) := by
    rw [hrun, countP_listed h]
    constructor
    · rintro ⟨reaped, hreaped, gone, hgone, hexact⟩
      have hsame := congrArg List.length ((Except.ok.inj hreaped).trans hgone)
      rw [length_map, length_map] at hsame
      rw [hsame, hexact.length]
    · exact fun hlength => ⟨_, rfl, _, rfl, hswept, hlength⟩
  have hnone : (∀ j ∈ s.jobs.rows, j.leaseExpired (now.getD s.clock) = false) ↔
      (s.listed .running).countP (·.leaseExpired (now.getD s.clock)) = 0 := by
    rw [countP_listed h]
    simp [countP_eq_zero]
  rw [hexact, hnone]
  unfold reapable window
  rw [← countP_eq_length_filter]
  by_cases hn : n = 0
  · subst hn
    rw [if_pos rfl]
    simp [countP_eq_zero]
  · rw [if_neg hn, countP_take_eq_min]
    exact ⟨fun hor => ⟨Or.inl (by omega), hor⟩, fun hand => hand.2⟩

/-- An expired lease that no reap comes to: so many RUNNING jobs whose leases have not expired were
created before. -/
def Starved (s : RedisServer Unit) (current : Instant) (n : ℕ) (job : Job) : Prop :=
  job ∈ s.listed .running ∧ job.leaseExpired current = true ∧
    Buried n (·.leaseExpired current) (s.listed .running) job

/-- After a reap that went over `gone`, the RUNNING index lists the others. -/
theorem listed_of_swept (h : s.Indexed) (h' : s'.Indexed) {current : Instant} {gone : List Job}
    (hswept : Swept (Job.leaseExpired · current) (fun j => some j.reaped) s.jobs.rows s'.jobs.rows
      gone) :
    s'.listed .running = (s.listed .running).filter (· ∉ gone) := by
  refine listed_eq_filter h h' fun j => ?_
  obtain ⟨rest, hbefore, hafter⟩ := hswept.split
  have hnodup := hbefore.nodup_iff.mp (nodup_of_keys s.jobs.nodup)
  rw [nodup_append'] at hnodup
  rw [mem_listed h', mem_listed h, hafter.mem_iff, hbefore.mem_iff, mem_append,
    mem_append, mem_filterMap]
  constructor
  · rintro ⟨⟨a, -, ha⟩ | hrest, hstatus⟩
    · cases ha
      cases hstatus
    · exact ⟨⟨Or.inr hrest, hstatus⟩, by simpa using fun hmem => hnodup.2.2 hmem hrest⟩
  · rintro ⟨⟨hgone | hrest, hstatus⟩, hnot⟩
    · simp [hgone] at hnot
    · exact ⟨Or.inr hrest, hstatus⟩

theorem starved_of_reap (h : s.Indexed) (h' : s'.Indexed) (hn : 1 ≤ n) {current : Instant}
    (hswept : Swept (Job.leaseExpired · current) (fun j => some j.reaped) s.jobs.rows s'.jobs.rows
      (reapable s current n)) (job : Job) :
    Starved s' current n job ↔ Starved s current n job := by
  have hwindow : window s .running n = (s.listed .running).take n := if_neg (by omega)
  have hlisted := listed_of_swept h h' hswept
  have hburied : job ∉ reapable s current n →
      (Buried n (·.leaseExpired current) (s'.listed .running) job ↔
        Buried n (·.leaseExpired current) (s.listed .running) job) := by
    intro hnot
    rw [hlisted]
    refine buried_filter (fun b _ hb => ?_) (by simpa using hnot)
    have hmem : b ∈ reapable s current n := by simpa using hb
    exact (mem_filter.mp hmem).2
  unfold Starved
  constructor
  · rintro ⟨hmem, hexp, hb⟩
    rw [hlisted, mem_filter] at hmem
    exact ⟨hmem.1, hexp, (hburied (by simpa using hmem.2)).mp hb⟩
  · rintro ⟨hmem, hexp, hb⟩
    have hnot : job ∉ reapable s current n := by
      intro hin
      have htake := mem_of_mem_filter hin
      rw [hwindow] at htake
      exact hb.notMem htake
    have hmem' : job ∈ s'.listed .running := by
      rw [hlisted, mem_filter]
      exact ⟨hmem, by simpa using hnot⟩
    exact ⟨hmem', hexp, (hburied hnot).mpr hb⟩

/-- **The loop of reaps ends, and leaves exactly the starved leases.** -/
theorem drains_reapExpiredLeases (h : s.Indexed) (now : Option Instant) (hn : 1 ≤ n) :
    ∃ s', Drains (fun s k s' => ∃ l, runAlone (reapExpiredLeases now n) s = (.ok l, s') ∧
        l.length = k) s s' ∧
      ((∀ j ∈ s'.jobs.rows, j.leaseExpired (now.getD s.clock) = false) ↔
        ∀ j, ¬Starved s (now.getD s.clock) n j) := by
  let P : RedisServer Unit → Prop := fun t => t.Indexed ∧ t.clock = s.clock ∧
    ∀ j, Starved t (now.getD s.clock) n j ↔ Starved s (now.getD s.clock) n j
  have hstep : ∀ t, P t → ∃ t',
      runAlone (reapExpiredLeases now n) t =
        (.ok ((reapable t (now.getD s.clock) n).map Job.reaped), t') ∧ P t' ∧
      t.jobs.rows.countP (·.leaseExpired (now.getD s.clock)) =
        (reapable t (now.getD s.clock) n).length +
          t'.jobs.rows.countP (·.leaseExpired (now.getD s.clock)) ∧
      (reapable t (now.getD s.clock) n = [] → t'.jobs.rows.Perm t.jobs.rows) := by
    rintro t ⟨ht, hclock, hstarved⟩
    obtain ⟨t', hrun, ht', hclock', hswept⟩ := reapExpiredLeases_spec ht now n
    rw [hclock] at hrun hswept hclock'
    refine ⟨t', hrun, ⟨ht', hclock', fun j => ?_⟩, hswept.countP (settles_reaped _), fun hnil => ?_⟩
    · rw [starved_of_reap ht ht' hn hswept, hstarved]
    · obtain ⟨rest, hbefore, hafter⟩ := hswept.split
      rw [hnil] at hbefore hafter
      exact hafter.trans hbefore.symm
  have hs : P s := ⟨h, rfl, fun _ => Iff.rfl⟩
  obtain ⟨s', hdrains⟩ : ∃ s', Drains (fun s k s' => ∃ l,
      runAlone (reapExpiredLeases now n) s = (.ok l, s') ∧ l.length = k) s s' := by
    refine Drains.exists_of_measure (P := P)
      (m := fun t => t.jobs.rows.countP (·.leaseExpired (now.getD s.clock))) (fun t ht => ?_) hs
    obtain ⟨t', hrun, ht', hcount, -⟩ := hstep t ht
    exact ⟨_, t', ⟨_, hrun, length_map _⟩, ht', by omega⟩
  obtain ⟨t, ht, l, hlast, hl⟩ := hdrains.last (P := P) (fun {t k t'} ht hcall => by
    obtain ⟨l, hcall, -⟩ := hcall
    obtain ⟨t'', hrun, ht', -⟩ := hstep t ht
    obtain ⟨-, rfl⟩ := Prod.mk.inj (hcall.symm.trans hrun)
    exact ht') hs
  refine ⟨s', hdrains, ?_⟩
  -- the last call found nothing
  obtain ⟨t', hrun, -, -, hsame⟩ := hstep t ht
  obtain ⟨hl', rfl⟩ := Prod.mk.inj (hlast.symm.trans hrun)
  obtain rfl := Except.ok.inj hl'
  have hnil : reapable t (now.getD s.clock) n = [] := by
    rw [length_map] at hl
    exact eq_nil_of_length_eq_zero hl
  have hwindow : window t .running n = (t.listed .running).take n := if_neg (by omega)
  have hnone : (∀ j ∈ s'.jobs.rows, j.leaseExpired (now.getD s.clock) = false) ↔
      ∀ j ∈ t.listed .running, j.leaseExpired (now.getD s.clock) = false := by
    constructor
    · intro hall j hj
      exact hall j ((hsame hnil).mem_iff.mpr ((mem_listed ht.1).mp hj).1)
    · intro hall j hj
      by_contra hexp
      have hstatus := (Job.leaseExpired_iff.mp (by simpa using hexp)).1
      have hmem := (mem_listed ht.1).mpr ⟨(hsame hnil).mem_iff.mp hj, hstatus⟩
      exact hexp (hall j hmem)
  rw [hnone]
  constructor
  · intro hall j hj
    have hj' := (ht.2.2 j).mpr hj
    exact absurd hj'.2.1 (by simp [hall j hj'.1])
  · intro hall j hj
    by_contra hexp
    have hexp' : j.leaseExpired (now.getD s.clock) = true := by simpa using hexp
    refine hall j ((ht.2.2 j).mp ⟨hj, hexp', buried_of_window (fun b hb => ?_) hj hexp'⟩)
    by_contra hb'
    have hmem : b ∈ reapable t (now.getD s.clock) n := by
      unfold reapable
      rw [hwindow]
      exact mem_filter.mpr ⟨hb, by simpa using hb'⟩
    rw [hnil] at hmem
    cases hmem

end RedisJobStore

/-! ## The three stores -/

/-- When the sweeps of the in-memory store are capped and complete: its limits are looked at too
late for a limit of zero. -/
structure InMemorySweeps (s : InMemoryJobStore) (status : JobStatus) (f : DeleteFilter)
    (now : Instant) (n : ℕ) : Prop where
  list : (s.listByStatus status n).length ≤ n ↔ 1 ≤ n ∨ ∀ j ∈ s.jobs.values, j.status ≠ status
  delete : DeletesExactly f n s.jobs.values (s.deleteWhere f (some n)).2.jobs.values
    (s.deleteWhere f (some n)).1 ↔ 1 ≤ n ∨ ∀ j ∈ s.jobs.values, f.matches j = false
  reap : ReapsExactly now n s.jobs.values (s.reapExpiredLeases now n).2.jobs.values
    (s.reapExpiredLeases now n).1 ↔ 1 ≤ n ∨ ∀ j ∈ s.jobs.values, j.leaseExpired now = false
  deleteLoop : 1 ≤ n → ∃ s',
    Drains (fun s k s' => s.deleteWhere f (some n) = (.ok k, s')) s s' ∧
      ∀ j ∈ s'.jobs.values, f.matches j = false
  reapLoop : 1 ≤ n → ∃ s',
    Drains (fun s k s' => ∃ l, s.reapExpiredLeases now n = (l, s') ∧ l.length = k) s s' ∧
      ∀ j ∈ s'.jobs.values, j.leaseExpired now = false

/-- When the sweeps of the Redis store are capped and complete: the deletes are, a list is not for a
limit of zero, and a reap filters the RUNNING jobs that it fetched. -/
structure RedisSweeps (s : RedisServer Unit) (status : JobStatus) (f : DeleteFilter)
    (now : Option Instant) (n : ℕ) : Prop where
  list : (∃ jobs,
      (runAlone (listByStatus status n) s).1 = .ok jobs ∧
        jobs.length ≤ n) ↔ 1 ≤ n ∨ ∀ j ∈ s.jobs.rows, j.status ≠ status
  delete : DeletesExactly f n s.jobs.rows (s.deleteWhere f (some n)).2.jobs.rows
    (s.deleteWhere f (some n)).1
  reap : (∃ reaped,
      (runAlone (reapExpiredLeases now n) s).1 = .ok reaped ∧
        ReapsExactly (now.getD s.clock) n s.jobs.rows
          (runAlone (reapExpiredLeases now n) s).2.jobs.rows
          reaped) ↔
    (1 ≤ n ∨ ∀ j ∈ s.jobs.rows, j.leaseExpired (now.getD s.clock) = false) ∧
      ((∀ j ∈ (s.listed .running).take n, j.leaseExpired (now.getD s.clock) = true) ∨
        ∀ j ∈ (s.listed .running).drop n, j.leaseExpired (now.getD s.clock) = false)
  deleteLoop : 1 ≤ n → ∃ s',
    Drains (fun s k s' => s.deleteWhere f (some n) = (.ok k, s')) s s' ∧
      ∀ j ∈ s'.jobs.rows, f.matches j = false
  reapLoop : 1 ≤ n → ∃ s',
    Drains (fun s k s' => ∃ l,
      runAlone (reapExpiredLeases now n) s = (.ok l, s') ∧
        l.length = k) s s' ∧
      ((∀ j ∈ s'.jobs.rows, j.leaseExpired (now.getD s.clock) = false) ↔
        ∀ j, ¬RedisJobStore.Starved s (now.getD s.clock) n j)

/-- When the deletes of the default are complete: it filters the jobs that it fetched. -/
structure DefaultSweeps {σ : Type} (store : AbstractJobStore σ) (s : σ) (f : DeleteFilter) (n : ℕ) :
    Prop where
  delete : DeletesExactly f n (store.jobs s) (store.jobs (store.deleteWhere f (some n) s).2)
      (store.deleteWhere f (some n) s).1 ↔
    n ≤ (store.jobs s).countP (fun j => f.matches j && decide (store.Visible f n s j)) ∨
      ∀ j ∈ store.jobs s, f.matches j = true → store.Visible f n s j
  deleteLoop : 1 ≤ n → ∃ s',
    Drains (fun s k s' => store.deleteWhere f (some n) s = (.ok k, s')) s s' ∧
      ((∀ j ∈ store.jobs s', f.matches j = false) ↔ ∀ j, ¬store.Starved f n s j)

/-- **When bounded sweeps are capped and complete.** -/
theorem bounded_sweeps_iff (memory : InMemoryJobStore) (redis : RedisServer Unit)
    (hredis : redis.Indexed) {σ : Type} (store : AbstractJobStore σ) (s : σ) (status : JobStatus)
    (f : DeleteFilter) (hf : f ≠ {}) (current : Instant) (now : Option Instant) (n : ℕ) :
    InMemorySweeps memory status f current n ∧ RedisSweeps redis status f now n ∧
      DefaultSweeps store s f n := by
  refine ⟨⟨?_, ?_, ?_, ?_, ?_⟩, ⟨?_, ?_, ?_, ?_, ?_⟩, ⟨?_, ?_⟩⟩
  · exact InMemoryJobStore.length_listByStatus_le
  · exact InMemoryJobStore.deletesExactly_iff hf
  · exact InMemoryJobStore.reapsExactly_iff
  · exact fun hn => memory.drains_deleteWhere hf hn
  · exact fun hn => memory.drains_reapExpiredLeases current hn
  · exact length_listByStatus_le hredis
  · exact RedisServer.deletesExactly_deleteWhere hredis hf n
  · exact reapsExactly_iff hredis
  · exact fun hn => RedisServer.drains_deleteWhere hredis hf hn
  · exact fun hn => drains_reapExpiredLeases hredis now hn
  · exact store.deletesExactly_iff hf n s
  · exact fun hn => store.drains_deleteWhere hf hn s

/-- Two RUNNING jobs: the lease of the second has expired, that of the first has not. -/
def twoRunning : RedisServer Unit :=
  ((({ jobs := KeyedMap.empty } : RedisServer Unit).saved
    { jobId := 1, status := .running, createdAt := 1, leaseExpiresAt := some 100 }).saved
    { jobId := 2, status := .running, createdAt := 2, leaseExpiresAt := some 5 })

/-- Three completed jobs, and a RUNNING one in front of the last. -/
def threeCompleted : InMemoryJobStore :=
  (((InMemoryJobStore.empty.put { jobId := 1, status := .completed }).put
    { jobId := 2, status := .completed }).put { jobId := 3, status := .running }).put
    { jobId := 4, status := .completed }

/-- Two of three matching jobs are deleted, and then the last; and the expired lease is reaped that
has a live one before it. -/
theorem bounded_sweeps_iff_twoRunning :
    DeletesExactly { status := some [.completed] } 2 threeCompleted.jobs.values
        (threeCompleted.deleteWhere { status := some [.completed] } (some 2)).2.jobs.values
        (threeCompleted.deleteWhere { status := some [.completed] } (some 2)).1 ∧
      (∃ s', Drains (fun s k s' =>
          InMemoryJobStore.deleteWhere s { status := some [.completed] } (some 2) = (.ok k, s'))
          threeCompleted s' ∧ ∀ j ∈ s'.jobs.values,
            InMemoryJobStore.DeleteFilter.matches { status := some [.completed] } j = false) ∧
      ∃ reaped, (runAlone (reapExpiredLeases (some 10) 2)
          twoRunning).1 = .ok reaped ∧
        ReapsExactly 10 2 twoRunning.jobs.rows (runAlone
          (reapExpiredLeases (some 10) 2) twoRunning).2.jobs.rows reaped := by
  have hredis : twoRunning.Indexed :=
    RedisServer.indexed_saved (RedisServer.indexed_saved RedisServer.indexed_empty _) _
  obtain ⟨hmemory, hserver, -⟩ := bounded_sweeps_iff threeCompleted twoRunning hredis
    InMemoryJobStore.backend threeCompleted .running { status := some [.completed] } (by decide) 10
    (some 10) 2
  refine ⟨hmemory.delete.mpr (Or.inl (by decide)), hmemory.deleteLoop (by decide), ?_⟩
  exact hserver.reap.mpr ⟨Or.inl (by decide), Or.inr (by decide)⟩

/-- A limit of zero lists, deletes and reaps a job of the in-memory store; a reap of one RUNNING job
of the Redis store returns none of the two, though one lease has expired. -/
theorem zero_limit_takes_one :
    (InMemoryJobStore.empty.put { jobId := 1, status := .running, leaseExpiresAt := some 5 }
      |>.listByStatus .running 0).length = 1 ∧
    (InMemoryJobStore.empty.put { jobId := 1, status := .running, leaseExpiresAt := some 5 }
      |>.deleteWhere { status := some [.running] } (some 0)).1 = .ok 1 ∧
    (InMemoryJobStore.empty.put { jobId := 1, status := .running, leaseExpiresAt := some 5 }
      |>.reapExpiredLeases 10 0).1.length = 1 ∧
    (runAlone (reapExpiredLeases (some 10) 1) twoRunning).1 =
      .ok [] ∧
    twoRunning.jobs.rows.countP (·.leaseExpired 10) = 1 := by
  decide

end Varco
