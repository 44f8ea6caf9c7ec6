import Mathlib.Data.Fintype.Basic
import Varco.Tenancy.FanoutMoves

/-!
# Fan-out children are all stopped

Once `stop` has returned, every child whose `start` was entered has been stopped since, and no
`start` is entered any more; once `on_tenant_deactivated` has returned, no child that was made for
the tenant before the call is started (`AllStopped`). That holds of the runs in which no task is
spawned after `stop` has returned, `stop` returns only when no task is left and none of a started
child is awaited, and a tenant is not deactivated while another call awaits a task of it that can
still start its child (`Orderly`). Each supervising task is then in `_tasks`, or awaited by a call
that will stop its child, or over with its child stopped (`Inv`).
-/

namespace Varco

open Function List

namespace TenantFanoutSupervisor

variable {cfg : Config} {ι : Type}

/-! ## What is promised -/

def Stopped (entered : List Entered) (child : ℕ) : Prop :=
  ∃ l₁ l₂, entered = l₁ ++ Entered.stop child :: l₂ ∧ .start child ∉ l₂

/-- In a run with these labels, which has led to `w`. -/
def AllStopped [DecidableEq ι] (cfg : Config) (l : List (ι × Input)) (w : Callers ι) : Prop :=
  ∀ l₀ l₁ u, l = l₀ ++ l₁ → Run (Step cfg) (fresh ι) l₀ u →
    ∃ later, w.shared.entered = u.shared.entered ++ later ∧
      (∀ i, u.phase i = .stopReturned →
        (∀ child, .start child ∈ u.shared.entered → Stopped u.shared.entered child) ∧
        ∀ child, .start child ∉ later) ∧
      ∀ i tenantId made, u.phase i = .deactivated tenantId made →
        ∀ child < made, u.shared.made[child]? = some tenantId → .start child ∉ later

def Spawns (cfg : Config) (s : State) : Input → Prop
  | .call (.onTenantActivated tenantId none) => cfg.enabled ∧ s.started ∧
      s.children.get? tenantId = none ∧ s.children.entries.length < cfg.maxEntries
  | .call .start => cfg.enabled ∧ s.started = false ∧ s.order ≠ []
  | _ => False

/-- `stop` returns in this step. -/
def StopReturns (s : State) : Input → Phase → Prop
  | .call .stop, .idle => s.stopped ∨ s.order = []
  | .resume _, .awaitingTask tenantId left _ =>
    s.children.get? tenantId = none ∧ (left = 0 ∨ s.order.length < left)
  | .resume outcome, .awaitingChild left =>
    outcome ≠ some .cancelled ∧ (left = 0 ∨ s.order.length < left)
  | _, _ => False

def Input.deactivates : Input → Option String
  | .call (.onTenantDeactivated tenantId) => some tenantId
  | _ => none

/-- What is asked of a step of the call `i`. -/
structure Orderly (cfg : Config) (w : Callers ι) (i : ι) (x : Input) : Prop where
  spawns : Spawns cfg w.shared x → ∀ j, w.phase j ≠ .stopReturned
  returns : StopReturns w.shared x (w.phase i) → w.shared.tasks.entries = [] ∧
    ∀ j, j ≠ i → ∀ q ∈ (w.phase j).awaits, ∀ job ∈ w.shared.jobs[q.2]?,
      Entered.start job.child ∉ w.shared.entered
  deactivates : ∀ tenantId ∈ x.deactivates, ∀ j, ∀ q ∈ (w.phase j).awaits, q.1 = tenantId →
    ∀ job ∈ w.shared.jobs[q.2]?, job.Over

instance (cfg : Config) (s : State) (x : Input) : Decidable (Spawns cfg s x) := by
  unfold Spawns
  split <;> infer_instance

instance (s : State) (x : Input) (p : Phase) : Decidable (StopReturns s x p) := by
  unfold StopReturns
  split <;> infer_instance

instance [DecidableEq ι] [Fintype ι] (cfg : Config) (w : Callers ι) (i : ι) (x : Input) :
    Decidable (Orderly cfg w i x) :=
  decidable_of_iff (_ ∧ _ ∧ _) ⟨fun h => ⟨h.1, h.2.1, h.2.2⟩, fun h => ⟨h.1, h.2, h.3⟩⟩

def Quiet (s : State) (job : Job) : Prop :=
  job.Over ∧ (.start job.child ∈ s.entered → Stopped s.entered job.child)

def Holds (s : State) (task child : ℕ) : Phase → Prop
  | .deactivating _ _ removed awaited => awaited = task ∧ removed = some child
  | .awaitingTask tenantId _ awaited =>
    awaited = task ∧ s.children.get? tenantId = some child
  | _ => False

/-- The tenant that a call removes, and how many children there were before. -/
def Phase.removes : Phase → Option (String × ℕ)
  | .deactivating tenantId made _ _ | .stoppingChild tenantId made | .deactivated tenantId made =>
    some (tenantId, made)
  | _ => none

/-- **The invariant.** -/
structure Inv (s : State) (phase : ι → Phase) : Prop where
  order : s.order = s.children.entries.map Prod.fst
  known : ∀ t (c : ℕ), s.children.get? t = some c → s.made[c]? = some t
  task : ∀ t (k : ℕ), s.tasks.get? t = some k →
    ∃ job, s.jobs[k]? = some job ∧ s.children.get? t = some job.child
  child : ∀ (k : ℕ) job, s.jobs[k]? = some job → job.child < s.made.length
  unique : ∀ (k k' : ℕ) job job', s.jobs[k]? = some job → s.jobs[k']? = some job' →
    job.child = job'.child → k = k'
  started : s.started = false → s.jobs = []
  entered : ∀ c, Entered.start c ∈ s.entered →
    ∃ (k : ℕ) (job : Job), s.jobs[k]? = some job ∧ job.child = c
  stage : ∀ (k : ℕ) job, s.jobs[k]? = some job → job.stage = .starting ∨ job.stage = .backingOff →
    Entered.start job.child ∈ s.entered
  awaited : ∀ i t (k : ℕ), (phase i).awaits = some (t, k) → ∃ job, s.jobs[k]? = some job ∧
    s.made[job.child]? = some t ∧ (job.Over ∨ Entered.start job.child ∈ s.entered)
  /-- Each task is in `_tasks`, or awaited, or over. -/
  placed : ∀ (k : ℕ) job, s.jobs[k]? = some job → (∃ t, s.tasks.get? t = some k) ∨
    (∃ i, Holds s k job.child (phase i)) ∨ Quiet s job
  /-- What a tenant had before it was deactivated is gone. -/
  retired : ∀ i t n, (phase i).removes = some (t, n) → n ≤ s.made.length ∧
    ∀ c < n, s.made[c]? = some t → s.children.get? t ≠ some c ∧
      ∀ (k : ℕ) job, s.jobs[k]? = some job → job.child = c →
        job.Over ∨ ∃ removed, phase i = .deactivating t n removed k
  quiet : ∀ i, phase i = .stopReturned → ∀ (k : ℕ) job, s.jobs[k]? = some job → Quiet s job

/-- The tasks of a tenant that are awaited are over. -/
def AwaitedOver (s : State) (phase : ι → Phase) (tenantId : String) : Prop :=
  ∀ j, ∀ q ∈ (phase j).awaits, q.1 = tenantId → ∀ job ∈ s.jobs[q.2]?, job.Over

/-- A call awaits a task of its tenant, which is over or has been entered. -/
def AwaitsKnown (s : State) (p : Phase) : Prop :=
  ∀ t k, p.awaits = some (t, k) → ∃ job, s.jobs[k]? = some job ∧
    s.made[job.child]? = some t ∧ (job.Over ∨ .start job.child ∈ s.entered)

theorem Stopped.append {entered new : List Entered} {child : ℕ} (h : Stopped entered child)
    (hnew : .start child ∉ new) : Stopped (entered ++ new) child := by
  obtain ⟨l₁, l₂, rfl, hl₂⟩ := h
  refine ⟨l₁, l₂ ++ new, by simp, fun hmem => ?_⟩
  rcases mem_append.mp hmem with hmem | hmem
  · exact hl₂ hmem
  · exact hnew hmem

theorem stopped_of_stop (entered : List Entered) (child : ℕ) :
    Stopped (entered ++ [.stop child]) child := ⟨entered, [], rfl, not_mem_nil⟩

theorem holds_awaits {s : State} {task child : ℕ} {p : Phase} (h : Holds s task child p) :
    ∃ t, p.awaits = some (t, task) := by
  cases p with
  | deactivating t _ _ k | awaitingTask t _ k => exact ⟨t, by rw [Phase.awaits, h.1]⟩
  | _ => exact h.elim

namespace Inv

variable {s : State} {phase : ι → Phase} (h : Inv s phase)

include h

section

theorem goes {jobs : List Job} (hgoes : Goes s.jobs jobs)
    (hstage : ∀ (k : ℕ) job', jobs[k]? = some job' →
      job'.stage = .starting ∨ job'.stage = .backingOff → Entered.start job'.child ∈ s.entered) :
    Inv { s with jobs := jobs } phase where
  order := h.order
  known := h.known
  task t k ht := by
    obtain ⟨job, hjob, hchild⟩ := h.task t k ht
    obtain ⟨job', hjob', hsame, -⟩ := hgoes.of_some hjob
    exact ⟨job', hjob', hsame ▸ hchild⟩
  child k job' hjob' := by
    obtain ⟨job, hjob, hsame, -⟩ := hgoes.of_some' hjob'
    exact hsame ▸ h.child k job hjob
  unique k₁ k₂ job₁' job₂' hjob₁' hjob₂' heq := by
    obtain ⟨job₁, hjob₁, hsame₁, -⟩ := hgoes.of_some' hjob₁'
    obtain ⟨job₂, hjob₂, hsame₂, -⟩ := hgoes.of_some' hjob₂'
    exact h.unique k₁ k₂ job₁ job₂ hjob₁ hjob₂ (by rw [← hsame₁, heq, hsame₂])
  started hstarted := by
    refine eq_nil_iff_forall_not_mem.mpr fun job' hmem => ?_
    obtain ⟨k, hk⟩ := List.getElem?_of_mem hmem
    obtain ⟨job, hjob, -⟩ := hgoes.of_some' hk
    rw [h.started hstarted] at hjob
    cases hjob
  entered c hc := by
    obtain ⟨k, job, hjob, hchild⟩ := h.entered c hc
    obtain ⟨job', hjob', hsame, -⟩ := hgoes.of_some hjob
    exact ⟨k, job', hjob', hsame.trans hchild⟩
  stage := hstage
  awaited i t k hi := by
    obtain ⟨job, hjob, hmade, hover⟩ := h.awaited i t k hi
    obtain ⟨job', hjob', hsame, hkeeps⟩ := hgoes.of_some hjob
    exact ⟨job', hjob', hsame ▸ hmade, hover.imp hkeeps fun hin => hsame ▸ hin⟩
  placed k job' hjob' := by
    obtain ⟨job, hjob, hsame, hkeeps⟩ := hgoes.of_some' hjob'
    refine (h.placed k job hjob).imp_right (Or.imp (fun hheld => ?_) fun hquiet => ?_)
    · rwa [hsame]
    · exact ⟨hkeeps hquiet.1, hsame ▸ hquiet.2⟩
  retired i t n hi := by
    obtain ⟨hn, hgone⟩ := h.retired i t n hi
    refine ⟨hn, fun c hc hmade => ⟨(hgone c hc hmade).1, fun k job' hjob' hchild => ?_⟩⟩
    obtain ⟨job, hjob, hsame, hkeeps⟩ := hgoes.of_some' hjob'
    exact ((hgone c hc hmade).2 k job hjob (hsame ▸ hchild)).imp_left hkeeps
  quiet i hi k job' hjob' := by
    obtain ⟨job, hjob, hsame, hkeeps⟩ := hgoes.of_some' hjob'
    obtain ⟨hover, hstopped⟩ := h.quiet i hi k job hjob
    exact ⟨hkeeps hover, hsame ▸ hstopped⟩

theorem cancel (task : ℕ) : Inv (TenantFanoutSupervisor.cancel task s) phase := by
  refine h.goes (goes_cancel task s) fun k job' hjob' hstage => ?_
  simp only [List.getElem?_modify] at hjob'
  obtain ⟨job, hjob, rfl⟩ := Option.map_eq_some_iff.mp hjob'
  split_ifs at hstage ⊢
  · rw [Job.cancel_stage] at hstage
    rw [Job.cancel_child]
    exact h.stage k job hjob hstage
  · exact h.stage k job hjob hstage

/-- A method of a child is entered; a `start` only by a task that is not over. -/
theorem enters (e : Entered)
    (hstart : ∀ c, e = .start c → ∃ (k : ℕ) (job : Job), s.jobs[k]? = some job ∧ job.child = c ∧
      ¬job.Over) : Inv (enter e s) phase := by
  have hin : ∀ {e'}, e' ∈ s.entered → e' ∈ s.entered ++ [e] :=
    fun hmem => mem_append_left _ hmem
  -- a child whose task is over is not the one that is started
  have hquiet : ∀ (k : ℕ) job, s.jobs[k]? = some job → Quiet s job → Quiet (enter e s) job := by
    intro k job hjob hq
    have hother : e ≠ .start job.child := by
      rintro rfl
      obtain ⟨k', job', hjob', hchild, hrest⟩ := hstart _ rfl
      obtain rfl := h.unique k k' job job' hjob hjob' hchild.symm
      obtain rfl := Option.some.inj (hjob.symm.trans hjob')
      exact hrest hq.1
    refine ⟨hq.1, fun hmem => ?_⟩
    have hbefore : Entered.start job.child ∈ s.entered := by
      rcases mem_append.mp hmem with hmem | hmem
      · exact hmem
      · exact absurd (mem_singleton.mp hmem).symm hother
    exact (hq.2 hbefore).append fun hnew => hother (mem_singleton.mp hnew).symm
  exact { h with
    entered := by
      intro c hc
      rcases mem_append.mp hc with hc | hc
      · exact h.entered c hc
      · obtain ⟨k, job, hjob, hchild, -⟩ := hstart c (mem_singleton.mp hc).symm
        exact ⟨k, job, hjob, hchild⟩
    stage := fun k job hjob hstage => hin (h.stage k job hjob hstage)
    awaited := by
      intro i t k hi
      obtain ⟨job, hjob, hmade, hover⟩ := h.awaited i t k hi
      exact ⟨job, hjob, hmade, hover.imp_right hin⟩
    placed := fun k job hjob => (h.placed k job hjob).imp_right (Or.imp_right (hquiet k job hjob))
    quiet := fun i hi k job hjob => hquiet k job hjob (h.quiet i hi k job hjob) }

theorem goOn {s' : State} {task : ℕ} {outcome : Option Exc}
    (hgoes : TenantFanoutSupervisor.goOn task outcome s = some s') : Inv s' phase := by
  obtain ⟨job, job', hjob, hchild, hover, hcase⟩ := goOn_cases hgoes
  have hset : ∀ (k : ℕ) job₁, (s.jobs.set task job')[k]? = some job₁ →
      k = task ∧ job₁ = job' ∨ s.jobs[k]? = some job₁ := by
    intro k job₁ hk
    rw [List.getElem?_set] at hk
    split_ifs at hk with heq hlt
    · exact .inl ⟨heq.symm, (Option.some.inj hk).symm⟩
    · exact .inr hk
  rcases hcase with ⟨rfl, hstage⟩ | ⟨rfl, hrest⟩
  · refine h.goes (goes_set hjob hchild hover) fun k job₁ hk hst => ?_
    rcases hset k job₁ hk with ⟨-, rfl⟩ | hk
    · rw [hchild]
      exact h.stage task job hjob (.inl (hstage hst))
    · exact h.stage k job₁ hk hst
  · have hentered := h.enters (.start job.child) fun c hc => by
      cases hc
      exact ⟨task, job, hjob, rfl, hrest⟩
    refine hentered.goes (goes_set hjob hchild hover) fun k job₁ hk hst => ?_
    rcases hset k job₁ hk with ⟨-, rfl⟩ | hk
    · rw [hchild]
      exact mem_append_right _ (mem_singleton_self _)
    · exact hentered.stage k job₁ hk hst

theorem register {tenantId : String} (hnew : s.children.get? tenantId = none) :
    Inv (TenantFanoutSupervisor.register tenantId s) phase := by
  have hold : ∀ t c, s.children.get? t = some c →
      (s.children.set tenantId s.made.length).get? t = some c := by
    intro t c ht
    rw [Dict.get?_set, if_neg, ht]
    rintro rfl
    cases hnew.symm.trans ht
  have hmade : ∀ (c : ℕ) t, s.made[c]? = some t → (s.made ++ [tenantId])[c]? = some t := by
    intro c t hc
    rw [List.getElem?_append_left (List.getElem?_eq_some_iff.mp hc).1, hc]
  have hlength : s.made.length ≤ (s.made ++ [tenantId]).length := by simp
  exact { h with
    order := by
      simp only [TenantFanoutSupervisor.register]
      rw [Dict.entries_set_new hnew, map_append, h.order]
      rfl
    known := by
      intro t c ht
      simp only [TenantFanoutSupervisor.register, Dict.get?_set] at ht ⊢
      split_ifs at ht with heq
      · rw [← Option.some.inj ht, heq, List.getElem?_concat_length]
      · exact hmade c t (h.known t c ht)
    task := by
      intro t k ht
      obtain ⟨job, hjob, hchild⟩ := h.task t k ht
      exact ⟨job, hjob, hold t _ hchild⟩
    child := fun k job hjob => (h.child k job hjob).trans_le hlength
    awaited := by
      intro i t k hi
      obtain ⟨job, hjob, hc, hover⟩ := h.awaited i t k hi
      exact ⟨job, hjob, hmade _ _ hc, hover⟩
    placed := by
      intro k job hjob
      refine (h.placed k job hjob).imp_right (Or.imp_left ?_)
      rintro ⟨i, hheld⟩
      refine ⟨i, ?_⟩
      cases hp : phase i with
      | awaitingTask t left k' =>
        rw [hp] at hheld
        exact ⟨hheld.1, hold t _ hheld.2⟩
      | _ =>
        rw [hp] at hheld
        exact hheld
    retired := by
      intro i t n hi
      obtain ⟨hn, hgone⟩ := h.retired i t n hi
      refine ⟨hn.trans hlength, fun c hc hmade' => ?_⟩
      have hlt : c < s.made.length := hc.trans_le hn
      simp only [TenantFanoutSupervisor.register, List.getElem?_append_left hlt] at hmade'
      refine ⟨?_, (hgone c hc hmade').2⟩
      simp only [TenantFanoutSupervisor.register, Dict.get?_set]
      split_ifs
      · intro heq
        exact absurd (Option.some.inj heq) hlt.ne'
      · exact (hgone c hc hmade').1 }

theorem spawn {tenantId : String} {child : ℕ} (index : ℕ)
    (hchild : s.children.get? tenantId = some child) (htask : s.tasks.get? tenantId = none)
    (hnone : ∀ job ∈ s.jobs, job.child ≠ child) (hstarted : s.started)
    (hrunning : ∀ i, phase i ≠ .stopReturned) :
    Inv (TenantFanoutSupervisor.spawn tenantId child index s) phase := by
  have hjobs : ∀ (k : ℕ) job,
      (s.jobs ++ [({ child := child, staggerIndex := index } : Job)])[k]? = some job →
      s.jobs[k]? = some job ∨
        k = s.jobs.length ∧ job = { child := child, staggerIndex := index } := by
    intro k job hk
    rw [List.getElem?_append] at hk
    split_ifs at hk with hlt
    · exact .inl hk
    · obtain ⟨hzero, he⟩ := List.getElem?_eq_some_iff.mp hk
      have hk' : k = s.jobs.length := by
        simp only [length_singleton] at hzero
        omega
      exact .inr ⟨hk', by simpa [hk'] using he.symm⟩
  have hold : ∀ (k : ℕ) job, s.jobs[k]? = some job →
      (s.jobs ++ [({ child := child, staggerIndex := index } : Job)])[k]? = some job := by
    intro k job hk
    rw [List.getElem?_append_left (List.getElem?_eq_some_iff.mp hk).1, hk]
  have hne : ∀ (k : ℕ) job, s.jobs[k]? = some job → job.child ≠ child :=
    fun k job hk => hnone job (mem_of_getElem? hk)
  have hmade := h.known tenantId child hchild
  exact { h with
    task := by
      intro t k ht
      simp only [TenantFanoutSupervisor.spawn, Dict.get?_set] at ht ⊢
      split_ifs at ht with heq
      · obtain rfl := Option.some.inj ht
        exact ⟨_, List.getElem?_concat_length .., heq ▸ hchild⟩
      · obtain ⟨job, hjob, hc⟩ := h.task t k ht
        exact ⟨job, hold k job hjob, hc⟩
    child := by
      intro k job hk
      rcases hjobs k job hk with hk | ⟨-, rfl⟩
      · exact h.child k job hk
      · exact (List.getElem?_eq_some_iff.mp hmade).1
    unique := by
      intro k k' job job' hk hk' heq
      rcases hjobs k job hk with hk | ⟨hlen, rfl⟩
      · rcases hjobs k' job' hk' with hk' | ⟨-, rfl⟩
        · exact h.unique k k' job job' hk hk' heq
        · exact absurd heq (hne k job hk)
      · rcases hjobs k' job' hk' with hk' | ⟨hlen', -⟩
        · exact absurd heq.symm (hne k' job' hk')
        · rw [hlen, hlen']
    started := by
      intro hnot
      cases hnot.symm.trans hstarted
    entered := by
      intro c hc
      obtain ⟨k, job, hjob, he⟩ := h.entered c hc
      exact ⟨k, job, hold k job hjob, he⟩
    stage := by
      intro k job hk hstage
      rcases hjobs k job hk with hk | ⟨-, rfl⟩
      · exact h.stage k job hk hstage
      · simp at hstage
    awaited := by
      intro i t k hi
      obtain ⟨job, hjob, hc, hover⟩ := h.awaited i t k hi
      exact ⟨job, hold k job hjob, hc, hover⟩
    placed := by
      intro k job hk
      simp only [TenantFanoutSupervisor.spawn]
      rcases hjobs k job hk with hk | ⟨rfl, -⟩
      · refine (h.placed k job hk).imp_left ?_
        rintro ⟨t, ht⟩
        refine ⟨t, ?_⟩
        rw [Dict.get?_set, if_neg, ht]
        rintro rfl
        cases htask.symm.trans ht
      · exact .inl ⟨tenantId, by simp⟩
    retired := by
      intro i t n hi
      obtain ⟨hn, hgone⟩ := h.retired i t n hi
      refine ⟨hn, fun c hc hmade' => ⟨(hgone c hc hmade').1, fun k job hk heq => ?_⟩⟩
      rcases hjobs k job hk with hk | ⟨-, rfl⟩
      · exact (hgone c hc hmade').2 k job hk heq
      · -- the child is registered, so its tenant was not deactivated since
        subst heq
        obtain rfl := Option.some.inj (hmade.symm.trans hmade')
        exact absurd hchild (hgone _ hc hmade').1
    quiet := fun i hi => absurd hi (hrunning i) }

theorem start : Inv { s with started := true } phase :=
  { h with started := fun hnot => by cases hnot }

theorem stop : Inv { s with stopped := true } phase := { h with }

theorem spawnAll {order : List String} (index : ℕ) (hnodup : order.Nodup)
    (htask : ∀ t ∈ order, s.tasks.get? t = none)
    (hnone : ∀ t ∈ order, ∀ c, s.children.get? t = some c → ∀ job ∈ s.jobs, job.child ≠ c)
    (hstarted : s.started) (hrunning : order ≠ [] → ∀ i, phase i ≠ .stopReturned) :
    Inv (TenantFanoutSupervisor.spawnAll order index s).1 phase := by
  induction order generalizing s index with
  | nil => exact h
  | cons t order ih =>
    obtain ⟨hnew, hnodup⟩ := nodup_cons.mp hnodup
    have hrunning := hrunning (cons_ne_nil _ _)
    unfold TenantFanoutSupervisor.spawnAll
    cases hchild : s.children.get? t with
    | none => exact h
    | some child =>
      have hspawn := h.spawn index hchild (htask t mem_cons_self)
        (hnone t mem_cons_self child hchild) hstarted hrunning
      refine ih hspawn (index + 1) hnodup (fun t' ht' => ?_) (fun t' ht' c hc job hjob => ?_)
        hstarted fun _ => hrunning
      · have hother : t' ≠ t := by
          rintro rfl
          exact hnew ht'
        simp only [TenantFanoutSupervisor.spawn]
        rw [Dict.get?_set, if_neg hother]
        exact htask t' (mem_cons_of_mem _ ht')
      · rcases mem_append.mp hjob with hjob | hjob
        · exact hnone t' (mem_cons_of_mem _ ht') c hc job hjob
        · rw [mem_singleton.mp hjob]
          rintro rfl
          -- one child has one tenant
          have hsame := (h.known t _ hchild).symm.trans (h.known t' _ hc)
          exact hnew (Option.some.inj hsame ▸ ht')

end

section

variable [DecidableEq ι] {i : ι} {p' : Phase}

/-- A call goes on, and may take children and tasks out of the dictionaries. -/
theorem shrink {children tasks : Dict String ℕ} {order : List String}
    (horder : order = children.entries.map Prod.fst)
    (hchildren : ∀ t c, children.get? t = some c → s.children.get? t = some c)
    (htasks : ∀ t k, tasks.get? t = some k →
      s.tasks.get? t = some k ∧ children.get? t = s.children.get? t)
    (hawaits : AwaitsKnown s p')
    (hplaced : ∀ (k : ℕ) job, s.jobs[k]? = some job → (∃ t, tasks.get? t = some k) ∨
      Holds { s with children := children } k job.child p' ∨
      (∃ j ≠ i, Holds { s with children := children } k job.child (phase j)) ∨ Quiet s job)
    (hretired : ∀ t n, p'.removes = some (t, n) → n ≤ s.made.length ∧
      ∀ c < n, s.made[c]? = some t → children.get? t ≠ some c ∧
        ∀ (k : ℕ) job, s.jobs[k]? = some job → job.child = c →
          job.Over ∨ ∃ removed, p' = .deactivating t n removed k)
    (hquiet : p' = .stopReturned → ∀ (k : ℕ) job, s.jobs[k]? = some job → Quiet s job) :
    Inv { s with children := children, tasks := tasks, order := order }
      (update phase i p') :=
  { h with
    order := horder
    known := fun t c ht => h.known t c (hchildren t c ht)
    task := by
      intro t k ht
      obtain ⟨hbefore, hsame⟩ := htasks t k ht
      obtain ⟨job, hjob, hc⟩ := h.task t k hbefore
      exact ⟨job, hjob, hsame.trans hc⟩
    awaited := by
      intro j t k hj
      by_cases hji : j = i
      · rw [hji, update_self] at hj
        exact hawaits t k hj
      · rw [update_of_ne hji] at hj
        exact h.awaited j t k hj
    placed := by
      intro k job hjob
      rcases hplaced k job hjob with htask | hheld | ⟨j, hji, hheld⟩ | hq
      · exact .inl htask
      · exact .inr (.inl ⟨i, by rwa [update_self]⟩)
      · exact .inr (.inl ⟨j, by rwa [update_of_ne hji]⟩)
      · exact .inr (.inr hq)
    retired := by
      intro j t n hj
      by_cases hji : j = i
      · rw [hji, update_self] at hj
        simp only [hji, update_self]
        exact hretired t n hj
      · rw [update_of_ne hji] at hj
        simp only [update_of_ne hji]
        obtain ⟨hn, hgone⟩ := h.retired j t n hj
        exact ⟨hn, fun c hc hmade => ⟨fun hin => (hgone c hc hmade).1 (hchildren t c hin),
          (hgone c hc hmade).2⟩⟩
    quiet := by
      intro j hj
      by_cases hji : j = i
      · rw [hji, update_self] at hj
        exact hquiet hj
      · rw [update_of_ne hji] at hj
        exact h.quiet j hj }

theorem placed_cases (i : ι) {k : ℕ} {job : Job} (hjob : s.jobs[k]? = some job) :
    (∃ t, s.tasks.get? t = some k) ∨ Holds s k job.child (phase i) ∨
      (∃ j ≠ i, Holds s k job.child (phase j)) ∨ Quiet s job := by
  rcases h.placed k job hjob with htask | ⟨j, hheld⟩ | hq
  · exact .inl htask
  · by_cases hji : j = i
    · exact .inr (.inl (hji ▸ hheld))
    · exact .inr (.inr (.inl ⟨j, hji, hheld⟩))
  · exact .inr (.inr (.inr hq))

/-- A call that holds no task goes on, and awaits none. -/
theorem passes
    (hfree : ∀ (k : ℕ) job, s.jobs[k]? = some job → Holds s k job.child (phase i) → Quiet s job)
    (hawaits : p'.awaits = none)
    (hremoves : ∀ t n, p'.removes = some (t, n) → (phase i).removes = some (t, n) ∧
      ∀ removed k, phase i = .deactivating t n removed k →
        ∀ job, s.jobs[k]? = some job → job.Over)
    (hquiet : p' = .stopReturned → ∀ (k : ℕ) job, s.jobs[k]? = some job → Quiet s job) :
    Inv s (update phase i p') := by
  refine h.shrink h.order (fun _ _ ht => ht) (fun _ _ ht => ⟨ht, rfl⟩) (fun t k hp => ?_)
    (fun k job hjob => ?_) (fun t n hp => ?_) hquiet
  · cases hawaits.symm.trans hp
  · rcases h.placed_cases i hjob with htask | hheld | hheld | hq
    · exact .inl htask
    · exact .inr (.inr (.inr (hfree k job hjob hheld)))
    · exact .inr (.inr (.inl hheld))
    · exact .inr (.inr (.inr hq))
  · obtain ⟨hi, hended⟩ := hremoves t n hp
    obtain ⟨hn, hgone⟩ := h.retired i t n hi
    refine ⟨hn, fun c hc hmade => ⟨(hgone c hc hmade).1, fun k job hjob hchild => .inl ?_⟩⟩
    rcases (hgone c hc hmade).2 k job hjob hchild with hover | ⟨removed, hdeact⟩
    · exact hover
    · exact hended removed k hdeact job hjob

theorem ends (hi : ∀ k c, ¬Holds s k c (phase i)) (hawaits : p'.awaits = none)
    (hremoves : p'.removes = none) (hstop : p' ≠ .stopReturned) :
    Inv s (update phase i p') := by
  refine h.passes (fun k job _ hheld => absurd hheld (hi k _)) hawaits (fun t n hp => ?_)
    fun hp => absurd hp hstop
  cases hremoves.symm.trans hp

variable {tenantId : String}

/-- The tasks of a tenant that no other call awaits, unless they are over. -/
theorem task_or_over (hothers : AwaitedOver s phase tenantId) {k : ℕ} {job : Job}
    (hjob : s.jobs[k]? = some job) (hmade : s.made[job.child]? = some tenantId) :
    s.tasks.get? tenantId = some k ∨ job.Over := by
  rcases h.placed k job hjob with ⟨t, htask⟩ | ⟨j, hheld⟩ | hq
  · obtain ⟨job', hjob', hchild⟩ := h.task t k htask
    obtain rfl := Option.some.inj (hjob'.symm.trans hjob)
    obtain rfl := Option.some.inj ((h.known t _ hchild).symm.trans hmade)
    exact .inl htask
  · obtain ⟨t, hawaits⟩ := holds_awaits hheld
    obtain ⟨job', hjob', ht, -⟩ := h.awaited j t k hawaits
    obtain rfl := Option.some.inj (hjob'.symm.trans hjob)
    obtain rfl := Option.some.inj (ht.symm.trans hmade)
    exact .inr (hothers j _ hawaits rfl _ hjob)
  · exact .inr hq.1

theorem remove (hi : phase i = .idle) (hothers : AwaitedOver s phase tenantId)
    (hremoves : p'.removes = some (tenantId, s.made.length))
    (hawaits : AwaitsKnown s p')
    (hheld : ∀ (k : ℕ) job, s.jobs[k]? = some job → s.children.get? tenantId = some job.child →
      Holds (TenantFanoutSupervisor.remove tenantId s) k job.child p' ∨ Quiet s job)
    (htask : ∀ (k : ℕ) job, s.tasks.get? tenantId = some k → s.jobs[k]? = some job →
      job.Over ∨ ∃ removed, p' = .deactivating tenantId s.made.length removed k) :
    Inv (TenantFanoutSupervisor.remove tenantId s) (update phase i p') := by
  have hchildren : ∀ t, t ≠ tenantId → (s.children.erase tenantId).get? t = s.children.get? t :=
    fun t ht => by rw [Dict.get?_erase, if_neg ht]
  refine h.shrink (by rw [Dict.keys_erase, h.order]) (fun t c ht => ?_) (fun t k ht => ?_) hawaits
    (fun k job hjob => ?_) (fun t n hp => ?_) (fun hp => ?_)
  · rw [Dict.get?_erase] at ht
    split_ifs at ht
    exact ht
  · rw [Dict.get?_erase] at ht
    split_ifs at ht with hne
    exact ⟨ht, hchildren t hne⟩
  · rcases h.placed_cases i hjob with ⟨t, ht⟩ | hown | ⟨j, hj, hother⟩ | hq
    · by_cases hne : t = tenantId
      · subst hne
        obtain ⟨job', hjob', hchild⟩ := h.task t k ht
        obtain rfl := Option.some.inj (hjob'.symm.trans hjob)
        exact .inr ((hheld k _ hjob hchild).imp_right .inr)
      · exact .inl ⟨t, by rw [Dict.get?_erase, if_neg hne, ht]⟩
    · rw [hi] at hown
      exact hown.elim
    · cases hp : phase j with
      | awaitingTask t left k' =>
        rw [hp] at hother
        by_cases hne : t = tenantId
        · subst hne
          exact .inr ((hheld k _ hjob hother.2).imp_right .inr)
        · refine .inr (.inr (.inl ⟨j, hj, ?_⟩))
          rw [hp]
          exact ⟨hother.1, (hchildren t hne).trans hother.2⟩
      | _ =>
        rw [hp] at hother
        refine .inr (.inr (.inl ⟨j, hj, ?_⟩))
        rw [hp]
        exact hother
    · exact .inr (.inr (.inr hq))
  · obtain ⟨rfl, rfl⟩ := Prod.mk.inj (Option.some.inj (hremoves.symm.trans hp))
    refine ⟨le_rfl, fun c hc hmade => ⟨by simp, fun k job hjob hchild => ?_⟩⟩
    rcases h.task_or_over hothers hjob (hchild ▸ hmade) with ht | hover
    · exact htask k job ht hjob
    · exact .inl hover
  · rw [hp] at hremoves
    cases hremoves

omit [DecidableEq ι] in
/-- No task is left, and none of a started child is awaited by another call. -/
theorem quiet_of_returns (hi : ∀ k c, ¬Holds s k c (phase i))
    (htasks : s.tasks.entries = [])
    (hothers : ∀ j ≠ i, ∀ q ∈ (phase j).awaits, ∀ job ∈ s.jobs[q.2]?,
      Entered.start job.child ∉ s.entered) {k : ℕ} {job : Job} (hjob : s.jobs[k]? = some job) :
    Quiet s job := by
  rcases h.placed k job hjob with ⟨t, ht⟩ | ⟨j, hheld⟩ | hq
  · cases (Dict.entries_eq_nil.mp htasks t).symm.trans ht
  · have hj : j ≠ i := by
      rintro rfl
      exact hi _ _ hheld
    obtain ⟨t, hawaits⟩ := holds_awaits hheld
    obtain ⟨job', hjob', -, hover⟩ := h.awaited j t k hawaits
    obtain rfl := Option.some.inj (hjob'.symm.trans hjob)
    have hnot := hothers j hj _ hawaits _ hjob
    exact ⟨hover.resolve_right hnot, fun hin => absurd hin hnot⟩
  · exact hq

/-- The loop of `stop` takes a task, and goes on. -/
theorem popTask {left : ℕ}
    (hi : ∀ (k : ℕ) job, s.jobs[k]? = some job → Holds s k job.child (phase i) → Quiet s job)
    (hp : p' = .awaitingChild left ∨ ∃ task, p' = .awaitingTask tenantId left task)
    (hawaits : AwaitsKnown s p')
    (htask : ∀ (k : ℕ) job, s.tasks.get? tenantId = some k → s.jobs[k]? = some job →
      Holds s k job.child p' ∨ Quiet s job) :
    Inv { s with tasks := s.tasks.erase tenantId } (update phase i p') := by
  have hremoves : p'.removes = none := by
    rcases hp with rfl | ⟨task, rfl⟩ <;> rfl
  refine h.shrink h.order (fun _ _ ht => ht) (fun t k ht => ?_) hawaits (fun k job hjob => ?_)
    (fun t n hp => ?_) (fun hp' => ?_)
  · rw [Dict.get?_erase] at ht
    split_ifs at ht
    exact ⟨ht, rfl⟩
  · rcases h.placed_cases i hjob with ⟨t, ht⟩ | hheld | hheld | hq
    · by_cases hne : t = tenantId
      · subst hne
        exact .inr ((htask k job ht hjob).imp_right .inr)
      · exact .inl ⟨t, by rw [Dict.get?_erase, if_neg hne, ht]⟩
    · exact .inr (.inr (.inr (hi k job hjob hheld)))
    · exact .inr (.inr (.inl hheld))
    · exact .inr (.inr (.inr hq))
  · cases hremoves.symm.trans hp
  · rcases hp with rfl | ⟨task, rfl⟩ <;> cases hp'

theorem awaits_cancel {task : ℕ} {job : Job}
    (hjob : s.jobs[task]? = some job) (hmade : s.made[job.child]? = some tenantId) :
    ∃ job', (TenantFanoutSupervisor.cancel task s).jobs[task]? = some job' ∧
      s.made[job'.child]? = some tenantId ∧ (job'.Over ∨ .start job'.child ∈ s.entered) := by
  refine ⟨job.cancel, ?_, ?_, ?_⟩
  · simp [TenantFanoutSupervisor.cancel, hjob]
  · rwa [Job.cancel_child]
  · rw [Job.cancel_child]
    exact job.over_cancel.imp_right fun hstage => h.stage task job hjob hstage

/-- **The loop of `stop`** up to its next await. -/
theorem visits (hi : ∀ k c, ¬Holds s k c (phase i)) {left : ℕ} {s' : State}
    (hvisits : Visits s left s' p')
    (hreturns : left = 0 ∨ s.order.length < left →
      ∀ (k : ℕ) job, s.jobs[k]? = some job → Quiet s job) :
    Inv s' (update phase i p') := by
  cases hvisits with
  | ends hends =>
    have hquiet := hreturns hends
    refine h.shrink rfl (fun t c ht => by cases ht) (fun t k ht => by cases ht)
      (fun t k hp => by cases hp) (fun k job hjob => .inr (.inr (.inr (hquiet k job hjob))))
      (fun t n hp => by cases hp) fun _ => hquiet
  | @awaits left t task horder htask hlive =>
    obtain ⟨job, hjob, hchild⟩ := h.task t task htask
    have hmade := h.known t _ hchild
    refine (h.cancel task).popTask (fun k job _ hheld => absurd hheld (hi k job.child))
      (.inr ⟨task, rfl⟩) (fun t' k hp => ?_) (fun k job' ht hjob' => .inl ?_)
    · cases hp
      exact h.awaits_cancel hjob hmade
    · obtain rfl := Option.some.inj (htask.symm.trans ht)
      obtain ⟨job₁, hjob₁, hsame, -⟩ := (goes_cancel task s).of_some' hjob'
      obtain rfl := Option.some.inj (hjob₁.symm.trans hjob)
      exact ⟨rfl, hsame ▸ hchild⟩
  | @stops left t c horder htask hchild =>
    have hstop := h.enters (.stop c) fun c' hc' => by cases hc'
    refine hstop.popTask (fun k job _ hheld => absurd hheld (hi k job.child)) (.inl rfl)
      (fun t' k hp => by cases hp)
      (fun k job ht hjob => .inr ⟨over_of_not_live (htask k ht) hjob, fun _ => ?_⟩)
    obtain ⟨job', hjob', hchild'⟩ := h.task t k ht
    obtain rfl := Option.some.inj (hjob'.symm.trans hjob)
    obtain rfl := Option.some.inj (hchild'.symm.trans hchild)
    exact stopped_of_stop s.entered _

/-- A child has been stopped after its task: the call goes on. -/
theorem childEntered {k : ℕ} {c : ℕ} (hlive : ¬s.Live k)
    (hi : ∀ (k' : ℕ) job, Holds s k' job (phase i) → k' = k ∧ job = c) (hawaits : p'.awaits = none)
    (hremoves : ∀ t n, p'.removes = some (t, n) → (phase i).removes = some (t, n) ∧
      ∀ removed k', phase i = .deactivating t n removed k' → k' = k)
    (hstop : p' ≠ .stopReturned) :
    Inv (enter (.stop c) s) (update phase i p') := by
  have hentered := h.enters (.stop c) fun c' hc' => by cases hc'
  refine hentered.passes (fun k' job hjob hheld => ?_) hawaits (fun t n hp => ?_)
    fun hp => absurd hp hstop
  · obtain ⟨rfl, hchild⟩ := hi k' job.child hheld
    refine ⟨over_of_not_live hlive hjob, fun _ => ?_⟩
    rw [hchild]
    exact stopped_of_stop s.entered c
  · obtain ⟨hbefore, hsame⟩ := hremoves t n hp
    refine ⟨hbefore, fun removed k' hdeact job hjob => ?_⟩
    obtain rfl := hsame removed k' hdeact
    exact over_of_not_live hlive hjob

/-- **A tenant is deactivated** while no task of it is live. -/
theorem removesChild (hi : phase i = .idle) (hothers : AwaitedOver s phase tenantId)
    (htask : ∀ task, s.tasks.get? tenantId = some task → ¬s.Live task) :
    Inv (stopRemoved tenantId s.made.length (s.children.get? tenantId)
        (TenantFanoutSupervisor.remove tenantId s)).1
      (update phase i (stopRemoved tenantId s.made.length (s.children.get? tenantId)
        (TenantFanoutSupervisor.remove tenantId s)).2) := by
  have hover : ∀ (k : ℕ) job, s.jobs[k]? = some job → s.children.get? tenantId = some job.child →
      job.Over := by
    intro k job hjob hchild
    rcases h.task_or_over hothers hjob (h.known _ _ hchild) with ht | hover
    · exact over_of_not_live (htask k ht) hjob
    · exact hover
  cases hchild : s.children.get? tenantId with
  | none =>
    refine h.remove hi hothers rfl (fun t k hp => by cases hp) (fun k job hjob hc => ?_)
      fun k job ht hjob => .inl (over_of_not_live (htask k ht) hjob)
    cases hchild.symm.trans hc
  | some c =>
    have hentered := h.enters (.stop c) fun c' hc' => by cases hc'
    refine hentered.remove hi hothers rfl (fun t k hp => by cases hp)
      (fun k job hjob hc => .inr ⟨hover k job hjob hc, fun _ => ?_⟩)
      fun k job ht hjob => .inl (over_of_not_live (htask k ht) hjob)
    obtain rfl := Option.some.inj (hchild.symm.trans hc)
    exact stopped_of_stop s.entered _

/-- **A tenant is deactivated** and its task cancelled. -/
theorem cancelsTask {task : ℕ} (hi : phase i = .idle)
    (hothers : AwaitedOver s phase tenantId) (htask : s.tasks.get? tenantId = some task) :
    Inv (TenantFanoutSupervisor.cancel task (TenantFanoutSupervisor.remove tenantId s))
      (update phase i
        (.deactivating tenantId s.made.length (s.children.get? tenantId) task)) := by
  obtain ⟨job, hjob, hchild⟩ := h.task tenantId task htask
  have hmade := h.known tenantId _ hchild
  have hcancel := h.cancel task
  refine hcancel.remove hi (fun j q hq ht job' hjob' => ?_) rfl (fun t k hp => ?_)
    (fun k job' hjob' hc => .inl ⟨?_, hc⟩) fun k job' ht _ => .inr ⟨s.children.get? tenantId, ?_⟩
  · obtain ⟨job₁, hjob₁, -, hkeeps⟩ := (goes_cancel task s).of_some' hjob'
    exact hkeeps (hothers j q hq ht _ hjob₁)
  · cases hp
    exact h.awaits_cancel hjob hmade
  · obtain ⟨job₁, hjob₁, hsame, -⟩ := (goes_cancel task s).of_some' hjob'
    have heq : job.child = job₁.child := by
      rw [← hsame]
      exact Option.some.inj (hchild.symm.trans hc)
    exact h.unique task k job job₁ hjob hjob₁ heq
  · obtain rfl := Option.some.inj (htask.symm.trans ht)
    rfl

end

end Inv

section

variable [DecidableEq ι] {w w' : Callers ι} {i : ι} {x : Input}

theorem inv_moves {s' : State} {p' : Phase} (h : Inv w.shared w.phase) (hok : Orderly cfg w i x)
    (hm : Moves cfg w.shared x (w.phase i) s' p') :
    Inv s' (update w.phase i p') := by
  generalize hp : w.phase i = p at hm
  have hkeep : ∀ {s'}, Inv s' w.phase → Inv s' (update w.phase i p) := by
    intro s' h'
    rwa [← hp, update_eq_self]
  have hidle : p = .idle → ∀ k c, ¬Holds w.shared k c (w.phase i) := by
    intro hidle k c hheld
    rw [hp, hidle] at hheld
    exact hheld
  cases hm with
  | passes x p' hp' =>
    rcases hp' with rfl | ⟨e, rfl⟩
    · exact h.ends (hidle rfl) rfl rfl (by simp)
    · exact h.ends (hidle rfl) rfl rfl (by simp)
  | registers x t hnew hstarted =>
    exact (h.register hnew).ends (fun k c hheld => by rwa [hp] at hheld) rfl rfl (by simp)
  | spawns t hnew henabled hroom hstarted =>
    have hrunning := hok.spawns ⟨henabled, hstarted, hnew, hroom⟩
    have htask : w.shared.tasks.get? t = none := by
      cases htask : w.shared.tasks.get? t with
      | none => rfl
      | some k =>
        obtain ⟨job, -, hchild⟩ := h.task t k htask
        cases hnew.symm.trans hchild
    have hchild : (register t w.shared).children.get? t = some w.shared.made.length := by
      simp [register]
    have hspawn := (h.register hnew).spawn 0 hchild htask (fun job hjob => ?_) hstarted hrunning
    · exact hspawn.ends (fun k c hheld => by rwa [hp] at hheld) rfl rfl (by simp)
    · obtain ⟨k, hk⟩ := List.getElem?_of_mem hjob
      exact (h.child k job hk).ne
  | starts x => exact h.start.ends (fun k c hheld => by rwa [hp] at hheld) rfl rfl (by simp)
  | spawnsAll henabled hstarted =>
    have hjobs := h.started hstarted
    have hnodup : w.shared.order.Nodup := h.order ▸ w.shared.children.nodup
    have hspawn := h.start.spawnAll 0 hnodup (fun t _ => ?_) (fun t _ c _ job hjob => ?_) rfl
      fun hne => hok.spawns ⟨henabled, hstarted, hne⟩
    · rcases spawnAll_phase w.shared.order 0 { w.shared with started := true } with he | ⟨t, he⟩
      · rw [he]
        exact hspawn.ends (fun k c hheld => by rwa [hp] at hheld) rfl rfl (by simp)
      · rw [he]
        exact hspawn.ends (fun k c hheld => by rwa [hp] at hheld) rfl rfl (by simp)
    · cases htask : w.shared.tasks.get? t with
      | none => rfl
      | some k =>
        obtain ⟨job, hjob, -⟩ := h.task t k htask
        simp [hjobs] at hjob
    · simp [hjobs] at hjob
  | goesOn x task outcome s' hgoes => exact hkeep (h.goOn hgoes)
  | cancels t task htask hlive => exact h.cancelsTask hp (hok.deactivates t rfl) htask
  | removes t htask => exact h.removesChild hp (hok.deactivates t rfl) htask
  | removed x t n child task hlive =>
    cases child with
    | some c =>
      refine h.childEntered hlive (fun k' c' hheld => ?_) rfl (fun t' n' hp' => ?_)
        (by simp [stopRemoved])
      · rw [hp] at hheld
        exact ⟨hheld.1.symm, (Option.some.inj hheld.2).symm⟩
      · rw [hp]
        exact ⟨hp', fun removed k' hdeact => by cases hdeact; rfl⟩
    | none =>
      refine h.passes (fun k job _ hheld => ?_) rfl (fun t' n' hp' => ?_) fun hp' => by cases hp'
      · rw [hp] at hheld
        cases hheld.2
      · rw [hp]
        refine ⟨hp', fun removed k' hdeact job hjob => ?_⟩
        cases hdeact
        exact over_of_not_live hlive hjob
  | childStopped x t n =>
    refine h.passes (fun k job _ hheld => ?_) rfl (fun t' n' hp' => ?_) fun hp' => by cases hp'
    · rw [hp] at hheld
      exact hheld.elim
    · rw [hp]
      exact ⟨hp', fun removed k hdeact => by cases hdeact⟩
  | raises x p hp' =>
    refine h.ends (fun k c hheld => ?_) rfl rfl (by simp)
    rw [hp] at hheld
    rcases hp' with ⟨t, n, rfl⟩ | ⟨left, rfl⟩ <;> exact hheld
  | interrupted x p t task hp' => exact hkeep (h.cancel task)
  | stopsAgain hstopped =>
    obtain ⟨htasks, hothers⟩ := hok.returns (by rw [hp]; exact .inl hstopped)
    refine h.passes (fun k job _ hheld => absurd hheld (hidle rfl k _)) rfl (fun t n hp' => ?_)
      fun _ k job hjob => h.quiet_of_returns (hidle rfl) htasks hothers hjob
    cases hp'
  | stops hstopped s' p' hvisits =>
    refine h.stop.visits (fun k c hheld => by rwa [hp] at hheld) hvisits fun hends k job hjob => ?_
    have hempty : w.shared.order = [] := length_eq_zero_iff.mp (hends.resolve_right (lt_irrefl _))
    obtain ⟨htasks, hothers⟩ := hok.returns (by rw [hp]; exact .inr hempty)
    exact h.quiet_of_returns (hidle rfl) htasks hothers hjob
  | visits outcome hkept left s' p' hvisits =>
    have hfree : ∀ k c, ¬Holds w.shared k c (w.phase i) := by
      intro k c hheld
      rw [hp] at hheld
      exact hheld
    refine h.visits hfree hvisits fun hends k job hjob => ?_
    obtain ⟨htasks, hothers⟩ := hok.returns (by rw [hp]; exact ⟨hkept, hends⟩)
    exact h.quiet_of_returns hfree htasks hothers hjob
  | passesOn outcome t left task hlive hchild s' p' hvisits =>
    have hfree : ∀ k c, ¬Holds w.shared k c (w.phase i) := by
      intro k c hheld
      rw [hp] at hheld
      cases hchild.symm.trans hheld.2
    refine h.visits hfree hvisits fun hends k job hjob => ?_
    obtain ⟨htasks, hothers⟩ := hok.returns (by rw [hp]; exact ⟨hchild, hends⟩)
    exact h.quiet_of_returns hfree htasks hothers hjob
  | visited x t left task hlive child hchild =>
    refine h.childEntered hlive (fun k' c' hheld => ?_) rfl (fun t' n' hp' => ?_) (by simp)
    · rw [hp] at hheld
      exact ⟨hheld.1.symm, Option.some.inj (hheld.2.symm.trans hchild)⟩
    · cases hp'

theorem order_isSome (h : Inv w.shared w.phase) :
    ∀ t ∈ w.shared.order, (w.shared.children.get? t).isSome := by
  intro t ht
  rw [h.order] at ht
  obtain ⟨⟨t', c⟩, hmem, rfl⟩ := mem_map.mp ht
  rw [Dict.mem_entries.mp hmem]
  rfl

end

section

variable [DecidableEq ι] {l : List (ι × Input)} {w w' : Callers ι} {a : ι × Input}

theorem inv_fresh : Inv (fresh ι).shared (fresh ι).phase := by
  constructor <;> simp [fresh, Phase.awaits, Phase.removes, Dict.empty, Dict.get?]

/-- **The invariant holds** in every run whose steps are orderly. -/
theorem inv_run (hrun : Guarded (Step cfg) (fun _ w a => Orderly cfg w a.1 a.2) (fresh ι) l w) :
    Inv w.shared w.phase := by
  refine hrun.invariant (I := fun _ w => Inv w.shared w.phase) inv_fresh ?_
  rintro l w a w' - hok ⟨⟨s', p'⟩, hnext, rfl⟩ h
  exact inv_moves h hok (moves_of_next (order_isSome h) hnext)

/-- What was promised when calls had returned, later on. -/
structure Kept (u w : Callers ι) : Prop where
  stopped : ∀ i, u.phase i = .stopReturned → w.phase i = .stopReturned
  deactivated : ∀ i t n, u.phase i = .deactivated t n → w.phase i = .deactivated t n
  made : ∃ newly, w.shared.made = u.shared.made ++ newly
  entered : ∃ later, w.shared.entered = u.shared.entered ++ later ∧
    (∀ i, u.phase i = .stopReturned → ∀ c, .start c ∉ later) ∧
    ∀ i t n, u.phase i = .deactivated t n → ∀ c < n, u.shared.made[c]? = some t → .start c ∉ later

theorem kept_step {u : Callers ι} (hinv : Inv w.shared w.phase) (h : Kept u w)
    (hst : Step cfg w a w') : Kept u w' := by
  obtain ⟨⟨s', p'⟩, hnext, rfl⟩ := hst
  have hm := moves_of_next (order_isSome hinv) hnext
  obtain ⟨hrunning, hactive⟩ := hm.not_ended
  obtain ⟨more, newer, hentered, hmade, hstarts⟩ := hm.grows
  obtain ⟨newly, hnewly⟩ := h.made
  obtain ⟨later, hlater, hstop, hgone⟩ := h.entered
  constructor
  · intro i hi
    have hne : i ≠ a.1 := by
      rintro rfl
      exact hrunning (h.stopped _ hi)
    rw [Tasks.put_phase_of_ne hne]
    exact h.stopped i hi
  · intro i t n hi
    have hne : i ≠ a.1 := by
      rintro rfl
      exact hactive t n (h.deactivated _ t n hi)
    rw [Tasks.put_phase_of_ne hne]
    exact h.deactivated i t n hi
  · exact ⟨newly ++ newer, by rw [Tasks.put_shared, hmade, hnewly, append_assoc]⟩
  · refine ⟨later ++ more, by rw [Tasks.put_shared, hentered, hlater, append_assoc], ?_, ?_⟩
    · intro i hi c hc
      rcases mem_append.mp hc with hc | hc
      · exact hstop i hi c hc
      · obtain ⟨k, job, hjob, -, hrest⟩ := hstarts c hc
        exact hrest (hinv.quiet i (h.stopped i hi) k job hjob).1
    · intro i t n hi c hcn hct hc
      rcases mem_append.mp hc with hc | hc
      · exact hgone i t n hi c hcn hct hc
      · obtain ⟨k, job, hjob, hchild, hrest⟩ := hstarts c hc
        have hp := h.deactivated i t n hi
        obtain ⟨-, hretired⟩ := hinv.retired i t n (by rw [hp]; rfl)
        have hct' : w.shared.made[c]? = some t := by
          rw [hnewly, List.getElem?_append_left (List.getElem?_eq_some_iff.mp hct).1, hct]
        rcases (hretired c hcn hct').2 k job hjob hchild with hover | ⟨removed, hdeact⟩
        · exact hrest hover
        · cases hp.symm.trans hdeact

/-- **Fan-out children are all stopped**, in every run whose steps are orderly. -/
theorem all_stopped
    (hrun : Guarded (Step cfg) (fun _ w a => Orderly cfg w a.1 a.2) (fresh ι) l w) :
    AllStopped cfg l w := by
  rintro l₀ l₁ u rfl hu
  have hdet : ∀ (w : Callers ι) a w₁ w₂, Step cfg w a w₁ → Step cfg w a w₂ → w₁ = w₂ :=
    fun _ _ _ _ => Tasks.Step.det
  have hinv : Inv u.shared u.phase := by
    obtain ⟨u', hguarded, -⟩ := hrun.split
    rw [← hguarded.run.det hdet hu]
    exact inv_run hguarded
  have hbegin : Kept u u := ⟨fun _ hi => hi, fun _ _ _ hi => hi, ⟨[], by simp⟩, [], by simp⟩
  have hkept := hrun.invariant_from (I := fun _ w => Kept u w) hdet hu hbegin
    fun l w a w' _ hw _ hst _ h => kept_step (inv_run hw) h hst
  obtain ⟨later, hlater, hstop, hgone⟩ := hkept.entered
  refine ⟨later, hlater, fun i hi => ⟨fun c hc => ?_, hstop i hi⟩, hgone⟩
  obtain ⟨k, job, hjob, rfl⟩ := hinv.entered c hc
  exact (hinv.quiet i hi k job hjob).2 hc

end

/-- A tenant's child is started, and the supervisor is stopped. -/
theorem all_stopped_acme :
    ∃ (l : List (Fin 4 × Input)) (w : Callers (Fin 4)), w.phase 2 = .stopReturned ∧
      Entered.start 0 ∈ w.shared.entered ∧ AllStopped {} l w := by
  have hrun : Guarded (Step {}) (fun _ w a => Orderly {} w a.1 a.2) (fresh (Fin 4))
      [(0, .call .start), (1, .call (.onTenantActivated "acme" none)), (3, .task 0 none),
        (2, .call .stop), (3, .task 0 (some .cancelled)), (2, .resume none), (2, .resume none)] _ :=
    Tasks.guarded_of_isSome (fun _ _ _ h => h) (by decide +kernel)
  exact ⟨_, _, by decide +kernel, by decide +kernel, all_stopped hrun⟩

/-- A tenant is activated while `stop` awaits another one's child: its child is started after `stop`
has returned. -/
theorem globex_started_after_stop :
    ∃ (l : List (Fin 5 × Input)) (w : Callers (Fin 5)),
      Run (Step {}) (fresh (Fin 5)) l w ∧ ¬AllStopped {} l w := by
  let stopped : List (Fin 5 × Input) :=
    [(0, .call .start), (1, .call (.onTenantActivated "acme" none)), (4, .task 0 none),
      (4, .task 0 none), (2, .call .stop), (3, .call (.onTenantActivated "globex" none)),
      (2, .resume none)]
  have hreturns : Tasks.advance (next {}) (fresh (Fin 5)) stopped = some _ := rfl
  have hrun : Tasks.advance (next {}) (fresh (Fin 5)) (stopped ++ [(4, .task 1 none)]) = some _ :=
    rfl
  refine ⟨_, _, Tasks.run_of_advance hrun, fun hall => ?_⟩
  obtain ⟨later, hlater, hstop, -⟩ := hall stopped _ _ rfl (Tasks.run_of_advance hreturns)
  have hnone := (hstop 2 (by decide +kernel)).2 1
  have hentered : later = [.start 1] :=
    (append_cancel_left (hlater.symm.trans (by decide +kernel)))
  exact hnone (by rw [hentered]; exact mem_singleton_self _)

end TenantFanoutSupervisor

end Varco
