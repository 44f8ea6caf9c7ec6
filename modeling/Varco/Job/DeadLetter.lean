import Varco.Job.Runner

/-!
# Dead letters

A job that fails for good is stored DEAD and a dead letter entry for it is pushed. The two go to
different stores, one after the other: `_handle_job_failure` stores the DEAD job first, so between
the two, and after a push that is lost, the store holds a DEAD job that no dead letter entry stands
for.

A crash stops the run of `_handle_job_failure` after some of its commands: what it leaves behind is
the world after the run so far. `dead_only_if_pushed_iff` says for which runs the store holds the
job DEAD only with its entry in the queue.
-/

namespace Varco

open Py

namespace JobRunner

def Retries (r : JobRunner) (job : Job) : Prop :=
  r.retryPolicy ∧ job.attempt + 1 < job.maxAttempts

def failurePool (r : JobRunner) (job : Job) (exc : PyException) (w : World Unit) :
    Pool Unit (World Unit) Cmd Cmd.Res (Except Exc Unit) :=
  ⟨w, fun _ => r.handleJobFailure job exc⟩

/-- The runs of `_handle_job_failure`, up to a crash or to its end. -/
abbrev FailureRun (r : JobRunner) (job : Job) (exc : PyException) (w : World Unit)
    (l : List (Event Unit Choice Cmd Cmd.Res))
    (P : Pool Unit (World Unit) Cmd Cmd.Res (Except Exc Unit)) : Prop :=
  Run (Pool.Step World.exec) (r.failurePool job exc w) l P

end JobRunner

def Event.Saved (e : Event Unit Choice Cmd Cmd.Res) : Prop :=
  (∃ job, e.cmd = .store (.save job none)) ∧ e.choice.interrupt ≠ .before

def Event.Pushed (e : Event Unit Choice Cmd Cmd.Res) : Prop :=
  (∃ entry, e.cmd = .push entry) ∧ e.choice.pushed ∧ e.choice.interrupt ≠ .before

namespace World

variable {ι : Type}

/-- The store holds the job of `id` as DEAD. -/
def HoldsDead (w : World ι) (id : UUID) : Prop := ∃ j, w.store.get id = some j ∧ j.status = .dead

/-- The queue holds a dead letter entry for the job of `id`. -/
def HoldsEntry (w : World ι) (id : UUID) : Prop :=
  ∃ entry ∈ w.dlq, entry.source = .job ∧ entry.sourceRef = some id.str

end World

namespace JobRunner

variable {r : JobRunner} {job : Job} {exc : PyException}

/-! ## What the handler issues -/

def FailureCmd (r : JobRunner) (job : Job) (exc : PyException) : Cmd → Prop
  | .store call => ∃ job', call = .save job' none ∧ job'.jobId = job.jobId ∧
      job.status = .running ∧ (r.Retries job ∧ job'.status = .pending ∨
        ¬r.Retries job ∧ job'.status = .dead)
  | .push entry => entry = deadLetterEntry job exc
  | _ => True

theorem spec_handleJobFailure (hdlq : r.dlq = true) :
    Spec (fun _ c => r.FailureCmd job exc c) (fun _ _ => True) (r.handleJobFailure job exc) [] := by
  unfold handleJobFailure
  split_ifs with hretry
  · refine spec_call trivial fun x d => spec_ofExcept (fun d _ => ?_) fun _ _ => trivial
    refine spec_now trivial fun x t => spec_ofExcept (fun retried hj => ?_) fun _ _ => trivial
    obtain ⟨hrun, rfl⟩ := Job.asRetry_eq_ok.mp hj
    refine spec_bind (spec_save ⟨_, rfl, rfl, hrun, Or.inl ⟨hretry, rfl⟩⟩ (fun x => ?_)
      fun _ _ _ => trivial)
    exact spec_publishProgress trivial trivial fun _ _ _ => trivial
  · refine spec_now trivial fun x t => spec_ofExcept (fun dead hj => ?_) fun _ _ => trivial
    obtain ⟨hrun, rfl⟩ := Job.asDead_eq_ok.mp hj
    refine spec_bind (spec_save ⟨_, rfl, rfl, hrun, Or.inr ⟨hretry, rfl⟩⟩ (fun x => ?_)
      fun _ _ _ => trivial)
    refine spec_bind (spec_await rfl fun x res _ => ?_)
    cases res with
    | ok u => exact spec_publishProgress trivial trivial fun _ _ _ => trivial
    | error e => exact trivial

/-! ## What a run leaves behind -/

variable {w w' : World Unit} {l : List (Event Unit Choice Cmd Cmd.Res)}
  {e : Event Unit Choice Cmd Cmd.Res} {P : Pool Unit (World Unit) Cmd Cmd.Res (Except Exc Unit)}

/-- A save that takes effect makes the job DEAD, or PENDING for a retry; nothing else changes it. -/
theorem holdsDead_step (hcmd : r.FailureCmd job exc e.cmd)
    (h : World.exec e.thread e.choice e.cmd w = some (e.res, w')) :
    (e.Saved → (w'.HoldsDead job.jobId ↔ ¬r.Retries job)) ∧
      (¬e.Saved → (w'.HoldsDead job.jobId ↔ w.HoldsDead job.jobId)) := by
  obtain ⟨hstore, -, -⟩ := World.exec_effect h
  obtain ⟨⟨x, c, res⟩, i⟩ := e
  constructor
  · rintro ⟨⟨job', rfl⟩, hx⟩
    obtain ⟨job', hcall, hid, -, hstatus⟩ := hcmd
    cases hcall
    have hget : w'.store.get job.jobId = some job' := by
      simp only [World.storeAfter, if_neg hx] at hstore
      rw [hstore, ← hid]
      exact InMemoryJobStore.get_put_self _ job'
    simp only [World.HoldsDead, hget, Option.some.injEq, exists_eq_left']
    rcases hstatus with ⟨hr, hs⟩ | ⟨hr, hs⟩ <;> simp [hr, hs]
  · intro hsaved
    suffices hsame : w'.store = w.store by rw [World.HoldsDead, hsame, World.HoldsDead]
    rw [hstore]
    cases c with
    | store call =>
      obtain ⟨job', rfl, -⟩ := hcmd
      have hx : x.interrupt = .before := by
        by_contra hx
        exact hsaved ⟨⟨job', rfl⟩, hx⟩
      simp only [World.storeAfter, if_pos hx]
    | _ => rfl

theorem holdsEntry_step (hcmd : r.FailureCmd job exc e.cmd)
    (h : World.exec e.thread e.choice e.cmd w = some (e.res, w')) :
    w'.HoldsEntry job.jobId ↔ w.HoldsEntry job.jobId ∨ e.Pushed := by
  obtain ⟨-, hdlq, -⟩ := World.exec_effect h
  obtain ⟨⟨x, c, res⟩, i⟩ := e
  by_cases hpush : ∃ entry, c = .push entry
  · obtain ⟨entry, rfl⟩ := hpush
    have hentry : entry = deadLetterEntry job exc := hcmd
    have hiff : (⟨⟨x, .push entry, res⟩, i⟩ : Event Unit Choice Cmd Cmd.Res).Pushed ↔
        x.pushed ∧ x.interrupt ≠ .before := by simp [Event.Pushed]
    simp only [World.dlqAfter] at hdlq
    rw [hiff, World.HoldsEntry, hdlq]
    by_cases hx : x.pushed ∧ x.interrupt ≠ .before
    · rw [if_pos hx]
      refine iff_of_true ⟨entry, by simp, ?_⟩ (Or.inr hx)
      rw [hentry]
      exact ⟨rfl, rfl⟩
    · rw [if_neg hx, or_iff_left hx, World.HoldsEntry]
  · have hsame : w'.dlq = w.dlq := by
      rw [hdlq]
      cases c with
      | push entry => exact absurd ⟨entry, rfl⟩ hpush
      | _ => rfl
    rw [World.HoldsEntry, hsame, ← World.HoldsEntry, or_iff_left]
    rintro ⟨hc, -⟩
    exact hpush hc

theorem failureCmd_of_run {l₁ l₂ : List (Event Unit Choice Cmd Cmd.Res)} (hdlq : r.dlq = true)
    (h : r.FailureRun job exc w (l₁ ++ e :: l₂) P) : r.FailureCmd job exc e.cmd :=
  Pool.issued (P := r.failurePool job exc w) (Φ := fun _ _ c => r.FailureCmd job exc c)
    (Ψ := fun _ _ _ => True) (fun _ _ _ _ _ _ => World.answer_of_exec)
    (fun _ => spec_handleJobFailure hdlq) h

/-- **What the runs of the handler leave behind**: the job is DEAD once a save has taken effect and
no retry was due, and the entry is in the queue once a push has stored it. -/
theorem holds_iff (hdlq : r.dlq = true) (hdead : ¬w.HoldsDead job.jobId)
    (hentry : ¬w.HoldsEntry job.jobId) (h : r.FailureRun job exc w l P) :
    (P.shared.HoldsDead job.jobId ↔ ¬r.Retries job ∧ ∃ e ∈ l, e.Saved) ∧
    (P.shared.HoldsEntry job.jobId ↔ ∃ e ∈ l, e.Pushed) := by
  induction l using List.reverseRecOn generalizing P with
  | nil =>
    rw [h.nil_inv]
    exact ⟨iff_of_false hdead (by simp), iff_of_false hentry (by simp)⟩
  | append_singleton l e ih =>
    have hcmd := failureCmd_of_run hdlq h
    obtain ⟨P₁, P₂, h₁, hst, h₂⟩ := h.at_label
    obtain rfl := h₂.nil_inv
    obtain ⟨ih₁, ih₂⟩ := ih h₁
    obtain ⟨hsaved, hnot⟩ := holdsDead_step hcmd hst.exec_eq
    have hpushed := holdsEntry_step hcmd hst.exec_eq
    simp only [List.mem_append, List.mem_singleton, or_and_right, exists_or, exists_eq_left]
    constructor
    · by_cases he : e.Saved
      · rw [hsaved he]
        simp [he]
      · rw [hnot he, ih₁]
        simp [he]
    · rw [hpushed, ih₂]

theorem status_of_saved (hdlq : r.dlq = true) (h : r.FailureRun job exc w l P) (he : e ∈ l)
    (hsaved : e.Saved) : job.status = .running := by
  obtain ⟨l₁, l₂, rfl⟩ := List.append_of_mem he
  have hcmd := failureCmd_of_run hdlq h
  obtain ⟨⟨job', hsave⟩, -⟩ := hsaved
  rw [hsave] at hcmd
  obtain ⟨-, -, -, hrun, -⟩ := hcmd
  exact hrun

/-- **Dead letter before terminal**, exactly when: after any run of `_handle_job_failure` with a
dead letter queue, cut off by a crash or not, the store holds the job DEAD only with a dead letter
entry for it in the queue if and only if a retry was due, the job was not RUNNING, no save has taken
effect before the crash, or a push has stored its entry before it. -/
theorem dead_only_if_pushed_iff (hdlq : r.dlq = true) (hdead : ¬w.HoldsDead job.jobId)
    (hentry : ¬w.HoldsEntry job.jobId) (h : r.FailureRun job exc w l P) :
    (P.shared.HoldsDead job.jobId → P.shared.HoldsEntry job.jobId) ↔
      r.Retries job ∨ job.status ≠ .running ∨ (∀ e ∈ l, ¬e.Saved) ∨ ∃ e ∈ l, e.Pushed := by
  obtain ⟨h₁, h₂⟩ := holds_iff hdlq hdead hentry h
  rw [h₁, h₂]
  constructor
  · intro himp
    by_contra hno
    push Not at hno
    obtain ⟨hr, -, ⟨e, he, hsaved⟩, hpush⟩ := hno
    obtain ⟨e', he', hpushed⟩ := himp ⟨hr, e, he, hsaved⟩
    exact hpush e' he' hpushed
  · rintro (hr | hs | hn | hp) ⟨hr', e, he, hsaved⟩
    · exact absurd hr hr'
    · exact absurd (status_of_saved hdlq h he hsaved) hs
    · exact absurd hsaved (hn e he)
    · exact hp

/-! ## A crash between the two stores -/

def lastAttempt : Job := { jobId := 7, status := .running, startedAt := some 0 }

def lastAttemptWorld : World Unit := { store := InMemoryJobStore.empty.put lastAttempt, clock := 0 }

/-- The clock is read and the DEAD job is saved; then the process is gone. -/
def crashBeforePush : List (Unit × Choice) := [((), { clock := 1 }), ((), { clock := 1 })]

theorem not_holdsDead_lastAttempt : ¬lastAttemptWorld.HoldsDead lastAttempt.jobId := by
  rintro ⟨j, hj, hs⟩
  cases hj
  cases hs

theorem not_holdsEntry_lastAttempt : ¬lastAttemptWorld.HoldsEntry lastAttempt.jobId := by
  rintro ⟨entry, hentry, -⟩
  cases hentry

/-- **A DEAD job without a dead letter entry**: the handler crashed after it saved the job. -/
theorem dead_without_entry :
    ∃ l P, FailureRun { dlq := true } lastAttempt ⟨"ValueError", "boom"⟩ lastAttemptWorld l P ∧
      P.shared.HoldsDead lastAttempt.jobId ∧ ¬P.shared.HoldsEntry lastAttempt.jobId := by
  refine ⟨_, _, Pool.run_of_sched (q := crashBeforePush) rfl, ⟨_, rfl, rfl⟩, ?_⟩
  rintro ⟨entry, hentry, -⟩
  cases hentry

/-- One command more, and the entry is there. -/
theorem dead_only_if_pushed_iff_lastAttempt :
    ∃ l P, FailureRun { dlq := true } lastAttempt ⟨"ValueError", "boom"⟩ lastAttemptWorld l P ∧
      P.shared.HoldsDead lastAttempt.jobId ∧ P.shared.HoldsEntry lastAttempt.jobId := by
  have hrun : ∃ l P, FailureRun { dlq := true } lastAttempt ⟨"ValueError", "boom"⟩ lastAttemptWorld
      l P ∧ P.shared.HoldsDead lastAttempt.jobId ∧ ∃ e ∈ l, e.Pushed := by
    refine ⟨_, _, Pool.run_of_sched (q := crashBeforePush ++ [((), { clock := 2 })]) rfl,
      ⟨_, rfl, rfl⟩, _, List.mem_cons_of_mem _ (List.mem_cons_of_mem _ List.mem_cons_self),
      ⟨_, rfl⟩, rfl, ?_⟩
    decide
  obtain ⟨l, P, h, hdead, hpush⟩ := hrun
  refine ⟨l, P, h, hdead, ?_⟩
  exact (dead_only_if_pushed_iff rfl not_holdsDead_lastAttempt not_holdsEntry_lastAttempt h).mpr
    (Or.inr (Or.inr (Or.inr hpush))) hdead

end JobRunner

end Varco
