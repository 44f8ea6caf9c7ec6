import Mathlib.Data.Fintype.Basic
import Varco.Tenancy.ControlMoves

/-!
# A late message and a deleted tenant

Once `deprovision` has set a tenant to DEPROVISIONING or DELETED, and while no command to provision
it is issued, it is not made ACTIVE again, and after the `deprovision` has returned no worker runs
its provisioner for it (`StaysGone`). That holds of the runs in which no worker is about to run its
provisioner when `deprovision` returns, and over a catalog that keeps its tombstones, or where no
call that would make the tenant active is under way when its status is set, and none begins after
that (`Timely`).
-/

namespace Varco

open Function

namespace TenantControlService

variable {cfg : Config} {catalog : TenantCatalog} {ι : Type} {rows : TenantRows}

/-! ## What is promised -/

/-- In a run with these labels, which has led to `w`. -/
def StaysGone [DecidableEq ι] (cfg : Config) (catalog : TenantCatalog) (rows : TenantRows)
    (l : List (ι × Input)) (w : Callers ι) : Prop :=
  (∀ t ∈ w.shared.barred, ∀ descriptor, w.shared.rows.get? t = some descriptor →
    descriptor.status ≠ .active) ∧
  ∀ l₀ l₁ u t, l = l₀ ++ l₁ → Run (Step cfg catalog) (fresh ι rows) l₀ u → t ∈ u.shared.gone →
    (∀ i, (i, Input.command t) ∉ l₁) → w.shared.workerRuns.count t = u.shared.workerRuns.count t

def Phase.activating : Phase → Option String
  | .provisionGet t | .provisionAdd t | .provisionRun t | .provisionUpdate t | .activateUpdate t _
  | .activateAdd t _ => some t
  | _ => none

/-- The tenant whose status `deprovision` sets in this step. -/
def bars (catalog : TenantCatalog) (fault : Option Exc) (s : State) : Phase → Option String
  | .deprovisionUpdate t =>
    if (ended fault (catalog.updateStatus t .deprovisioning s.rows)).isOk then some t else none
  | .deprovisionDelete t _ =>
    if (ended fault (catalog.updateStatus t .deleted s.rows)).isOk then some t else none
  | _ => none

def Input.activates (cfg : Config) (s : State) : Input → Option String
  | .call (.provision t) => some t
  | .call (.onNodeReady t storeId) =>
    if storeId ∈ cfg.expectedStores ∧ storeId ∉ s.seenStores t ∧
      cfg.expectedStores ⊆ insert storeId (s.seenStores t) then some t else none
  | _ => none

def Input.fault : Input → Option (Option Exc)
  | .resume fault => some fault
  | _ => none

/-- The last await of a `deprovision`: its tenant, and the number of commands for it when its status
was set. -/
def Phase.last : Phase → Option (String × ℕ)
  | .deprovisionLast t n => some (t, n)
  | _ => none

/-- What is asked of a step of the call `i`, over a catalog that does not keep its tombstones. -/
structure Prompt (cfg : Config) (catalog : TenantCatalog) (w : Callers ι) (i : ι) (x : Input) :
    Prop where
  begins : ∀ t ∈ x.activates cfg w.shared, t ∉ w.shared.barred
  bars : ∀ fault ∈ x.fault, ∀ t ∈ bars catalog fault w.shared (w.phase i),
    ∀ j, (w.phase j).activating ≠ some t

/-- What is asked of a step of the call `i`. -/
structure Timely (cfg : Config) (catalog : TenantCatalog) (w : Callers ι) (i : ι) (x : Input) :
    Prop where
  prompt : catalog.Tombstones ∨ Prompt cfg catalog w i x
  returns : ∀ q ∈ (w.phase i).last, w.shared.commands.count q.1 = q.2 →
    ∀ j, w.phase j ≠ .workerRun q.1
  found : ∀ t ∈ w.shared.gone, w.phase i = .workerGet t →
    ∀ fault ∈ x.fault, ∀ e ∈ fault, notFound e = false

instance [Fintype ι] (w : Callers ι) (i : ι) (x : Input) : Decidable (Prompt cfg catalog w i x) :=
  decidable_of_iff (_ ∧ _) ⟨fun h => ⟨h.1, h.2⟩, fun h => ⟨h.1, h.2⟩⟩

/-- The tenant whose status the call has set, and the number of commands for it then. -/
def Phase.issued : Phase → Option (String × ℕ)
  | .deprovisionEmit t n | .deprovisionStop t n | .deprovisionEvict t n | .deprovisionRun t n
  | .deprovisionDelete t n | .deprovisionLast t n => some (t, n)
  | _ => none

/-- **The invariant.** -/
structure Barred (catalog : TenantCatalog) (s : State) (phase : ι → Phase) : Prop where
  row : ∀ t ∈ s.barred, ∃ descriptor, s.rows.get? t = some descriptor ∧
    (descriptor.status = .deprovisioning ∨ descriptor.status = .deleted)
  pending : ∀ t ∈ s.barred, catalog.Tombstones ∨ ∀ j, (phase j).activating ≠ some t
  gone : ∀ t ∈ s.gone, t ∈ s.barred ∧ ∀ j, phase j ≠ .workerRun t
  issued : ∀ j t n, (phase j).issued = some (t, n) → n ≤ s.commands.count t ∧
    (s.commands.count t = n → t ∈ s.barred)

section

variable [DecidableEq ι] {s s' : State} {phase : ι → Phase} {p' : Phase} {i : ι}
  {fault : Option Exc}

/-- A call goes on while the rows of barred tenants stay as they are. -/
theorem Barred.goesOn (h : Barred catalog s phase) (hbarred : s'.barred = s.barred)
    (hgone : s'.gone = s.gone) (hcommands : s'.commands = s.commands)
    (hrows : ∀ t ∈ s.barred, s'.rows.get? t = s.rows.get? t)
    (hpending : ∀ t ∈ s.barred, p'.activating = some t → (phase i).activating = some t ∨
      catalog.Tombstones := by simp [Phase.activating])
    (hrun : ∀ t ∈ s.gone, p' ≠ .workerRun t := by simp)
    (hissued : ∀ t n, p'.issued = some (t, n) → n ≤ s.commands.count t ∧
      (s.commands.count t = n → t ∈ s.barred) := by simp [Phase.issued]) :
    Barred catalog s' (update phase i p') := by
  constructor
  · intro t ht
    rw [hbarred] at ht
    rw [hrows t ht]
    exact h.row t ht
  · intro t ht
    rw [hbarred] at ht
    rcases h.pending t ht with htomb | hnone
    · exact .inl htomb
    · by_cases htomb : catalog.Tombstones
      · exact .inl htomb
      · refine .inr fun j hj => ?_
        by_cases hji : j = i
        · rw [hji, update_self] at hj
          exact hnone i ((hpending t ht hj).resolve_right htomb)
        · rw [update_of_ne hji] at hj
          exact hnone j hj
  · intro t ht
    rw [hgone] at ht
    refine ⟨by rw [hbarred]; exact (h.gone t ht).1, fun j hj => ?_⟩
    by_cases hji : j = i
    · rw [hji, update_self] at hj
      exact hrun t ht hj
    · rw [update_of_ne hji] at hj
      exact (h.gone t ht).2 j hj
  · intro j t n hj
    rw [hcommands, hbarred]
    by_cases hji : j = i
    · rw [hji, update_self] at hj
      exact hissued t n hj
    · rw [update_of_ne hji] at hj
      exact h.issued j t n hj

omit [DecidableEq ι] in
/-- A row that an `add` leaves alone. -/
theorem Barred.row_add (h : Barred catalog s phase) (hlawful : catalog.Lawful)
    {descriptor : TenantDescriptor} {written : TenantRows}
    (hp : (phase i).activating = some descriptor.tenantId)
    (hadd : catalog.add descriptor s.rows = .ok written) :
    ∀ t ∈ s.barred, written.get? t = s.rows.get? t := by
  intro t ht
  by_cases hsame : t = descriptor.tenantId
  · obtain ⟨found, hfound, -⟩ := h.row t ht
    rcases h.pending t ht with htomb | hnone
    · rw [hsame] at hfound ⊢
      rw [hfound, htomb.kept s.rows descriptor found written hfound hadd]
    · exact absurd (hsame ▸ hp) (hnone i)
  · exact hlawful.add_other descriptor s.rows written t hadd hsame

/-- `deprovision` sets a status. -/
theorem Barred.sets (h : Barred catalog s phase) (hlawful : catalog.Lawful) {t : String}
    {status : TenantStatus} {written : TenantRows}
    (hupdate : catalog.updateStatus t status s.rows = .ok written)
    (hstatus : status = .deprovisioning ∨ status = .deleted) (hactivating : p'.activating = none)
    (hissued : p'.issued = some (t, s.commands.count t)) (hrun : ∀ t, p' ≠ .workerRun t)
    (hothers : catalog.Tombstones ∨ ∀ j, (phase j).activating ≠ some t) :
    Barred catalog { s with rows := written, barred := insert t s.barred }
      (update phase i p') := by
  have hinsert : ∀ t' ∈ insert t s.barred, t' = t ∨ t' ≠ t ∧ t' ∈ s.barred := by
    intro t' ht'
    by_cases hsame : t' = t
    · exact .inl hsame
    · exact .inr ⟨hsame, (Finset.mem_insert.mp ht').resolve_left hsame⟩
  constructor
  · intro t' ht'
    rcases hinsert t' ht' with rfl | ⟨hne, hin⟩
    · obtain ⟨descriptor, hrow, hset⟩ := hlawful.update_self t' status s.rows written hupdate
      exact ⟨descriptor, hrow, hset ▸ hstatus⟩
    · rw [hlawful.update_other t status s.rows written t' hupdate hne]
      exact h.row t' hin
  · intro t' ht'
    have hbefore : catalog.Tombstones ∨ ∀ j, (phase j).activating ≠ some t' := by
      rcases hinsert t' ht' with rfl | ⟨-, hin⟩
      · exact hothers
      · exact h.pending t' hin
    refine hbefore.imp_right fun hnone j hj => ?_
    by_cases hji : j = i
    · rw [hji, update_self, hactivating] at hj
      cases hj
    · rw [update_of_ne hji] at hj
      exact hnone j hj
  · intro t' ht'
    refine ⟨Finset.mem_insert_of_mem (h.gone t' ht').1, fun j hj => ?_⟩
    by_cases hji : j = i
    · rw [hji, update_self] at hj
      exact hrun t' hj
    · rw [update_of_ne hji] at hj
      exact (h.gone t' ht').2 j hj
  · intro j t' n hj
    by_cases hji : j = i
    · rw [hji, update_self, hissued] at hj
      cases hj
      exact ⟨le_rfl, fun _ => Finset.mem_insert_self ..⟩
    · rw [update_of_ne hji] at hj
      obtain ⟨hle, hbarred⟩ := h.issued j t' n hj
      exact ⟨hle, fun hcount => Finset.mem_insert_of_mem (hbarred hcount)⟩

/-- `deprovision` returns. -/
theorem Barred.returns (h : Barred catalog s phase) {t : String} (hbarred : t ∈ s.barred)
    (hrun : ∀ j, phase j ≠ .workerRun t) :
    Barred catalog { s with gone := insert t s.gone } (update phase i .returned) := by
  have hsame : Barred catalog s (update phase i .returned) :=
    h.goesOn rfl rfl rfl fun _ _ => rfl
  refine { hsame with gone := fun t' ht' => ?_ }
  rcases Finset.mem_insert.mp ht' with rfl | hin
  · refine ⟨hbarred, fun j hj => ?_⟩
    by_cases hji : j = i
    · rw [hji, update_self] at hj
      cases hj
    · rw [update_of_ne hji] at hj
      exact hrun j hj
  · exact hsame.gone t' hin

theorem Barred.command (h : Barred catalog s phase) (t : String) :
    Barred catalog (command t s) phase := by
  have hbarred : ∀ t' ∈ (TenantControlService.command t s).barred, t' ≠ t ∧ t' ∈ s.barred :=
    fun t' ht' => Finset.mem_erase.mp ht'
  constructor
  · exact fun t' ht' => h.row t' (hbarred t' ht').2
  · exact fun t' ht' => h.pending t' (hbarred t' ht').2
  · intro t' ht'
    obtain ⟨hne, hin⟩ := Finset.mem_erase.mp ht'
    exact ⟨Finset.mem_erase.mpr ⟨hne, (h.gone t' hin).1⟩, (h.gone t' hin).2⟩
  · intro j t' n hj
    obtain ⟨hle, hcount⟩ := h.issued j t' n hj
    simp only [TenantControlService.command, List.count_append, List.count_singleton]
    by_cases hsame : t' = t
    · subst hsame
      refine ⟨hle.trans (Nat.le_add_right ..), fun heq => ?_⟩
      simp only [beq_self_eq_true, if_true] at heq
      omega
    · have hbeq : (t == t') = false := beq_eq_false_iff_ne.mpr (Ne.symm hsame)
      simp only [hbeq, Bool.false_eq_true, if_false, Nat.add_zero]
      exact ⟨hle, fun heq => Finset.mem_erase.mpr ⟨hsame, hcount heq⟩⟩

/-- **A call goes on.** -/
theorem Barred.moves {w : Callers ι} (h : Barred catalog w.shared w.phase)
    (hlawful : catalog.Lawful) (hok : Timely cfg catalog w i (.resume fault))
    (hm : Moves cfg catalog fault w.shared (w.phase i) s' p') :
    Barred catalog s' (update w.phase i p') := by
  generalize hp : w.phase i = p at hm
  cases hm with
  | raises p e =>
    exact h.goesOn rfl rfl rfl fun _ _ => rfl
  | passes p p' hpasses =>
    refine h.goesOn rfl rfl rfl (fun _ _ => rfl) (fun t _ hp' => .inl ?_) (fun t _ hp' => ?_)
      fun t n hp' => ?_
    · rw [hp]
      cases hpasses with
      | provisionGet t' p' hcase =>
        rcases hcase with rfl | rfl | rfl <;> simp_all [Phase.activating]
      | deprovision t' n p p' hcase hcase' =>
        rcases hcase' with rfl | rfl | rfl | rfl <;> simp [Phase.activating] at hp'
      | _ => simp_all [Phase.activating]
    · cases hpasses with
      | provisionGet t' p' hcase => rcases hcase with rfl | rfl | rfl <;> cases hp'
      | deprovision t' n p p' hcase hcase' =>
        rcases hcase' with rfl | rfl | rfl | rfl <;> cases hp'
      | _ => cases hp'
    · cases hpasses with
      | provisionGet t' p' hcase =>
        rcases hcase with rfl | rfl | rfl <;> simp [Phase.issued] at hp'
      | deprovision t' n' p p' hcase hcase' =>
        have hissued : (w.phase i).issued = some (t', n') := by
          rw [hp]
          rcases hcase with rfl | rfl | rfl | rfl <;> rfl
        have heq : t' = t ∧ n' = n := by
          rcases hcase' with rfl | rfl | rfl | rfl <;> simpa [Phase.issued] using hp'
        rw [heq.1, heq.2] at hissued
        exact h.issued i t n hissued
      | _ => simp [Phase.issued] at hp'
  | adds t written hadd =>
    exact h.goesOn rfl rfl rfl (h.row_add hlawful (by rw [hp]; rfl) hadd)
      (fun t' _ hp' => .inl (by rw [hp]; exact hp'))
  | activates p p' t written hcase hupdate =>
    have hactivating : p.activating = some t ∧ p'.activating = none ∧ p'.issued = none ∧
        ∀ t, p' ≠ .workerRun t := by
      rcases hcase with ⟨rfl, rfl⟩ | ⟨storeId, rfl, rfl⟩ <;> simp [Phase.activating, Phase.issued]
    obtain ⟨hbefore, hafter, hissued, hrun⟩ := hactivating
    refine h.goesOn rfl rfl rfl (fun t' ht' => ?_) (by simp [hafter]) (fun t' _ => hrun t')
      (by simp [hissued])
    by_cases hsame : t' = t
    · -- a barred tenant is made active only by a catalog that keeps no tombstones
      obtain ⟨found, hfound, hstatus⟩ := h.row t' ht'
      rcases h.pending t' ht' with htomb | hnone
      · exact absurd (hsame ▸ hupdate) (htomb.refused w.shared.rows t' found hfound hstatus written)
      · exact absurd (by rw [hp, hbefore, hsame]) (hnone i)
    · exact hlawful.update_other t .active w.shared.rows written t' hupdate hsame
  | addsActive t storeId written hadd =>
    exact h.goesOn rfl rfl rfl (h.row_add hlawful (by rw [hp]; rfl) hadd)
      (by simp [Phase.activating])
  | checks t hrow =>
    refine h.goesOn rfl rfl rfl (fun _ _ => rfl) (by simp [Phase.activating]) (fun t' ht' hp' => ?_)
      (by simp [Phase.issued])
    cases hp'
    rcases hrow with ⟨e, rfl, hnot⟩ | hrow
    · rw [hok.found t ht' hp _ rfl e rfl] at hnot
      cases hnot
    · obtain ⟨found, hfound, hstatus⟩ := h.row t (h.gone t ht').1
      obtain ⟨hdeleted, hdeprovisioning⟩ := hrow found hfound
      rcases hstatus with hstatus | hstatus
      · exact hdeprovisioning hstatus
      · exact hdeleted hstatus
  | runs t =>
    exact h.goesOn rfl rfl rfl fun _ _ => rfl
  | bars p p' t status written hcase hended =>
    have hstatus : status = .deprovisioning ∨ status = .deleted := by
      rcases hcase with ⟨-, -, rfl⟩ | ⟨n, -, -, rfl⟩ <;> simp
    have hphase : p'.activating = none ∧ p'.issued = some (t, w.shared.commands.count t) ∧
        ∀ t, p' ≠ .workerRun t := by
      rcases hcase with ⟨-, rfl, -⟩ | ⟨n, -, rfl, -⟩ <;> simp [Phase.activating, Phase.issued]
    obtain ⟨hactivating, hissued, hrun⟩ := hphase
    have hbars : t ∈ bars catalog fault w.shared (w.phase i) := by
      rw [hp]
      rcases hcase with ⟨rfl, -, rfl⟩ | ⟨n, rfl, -, rfl⟩ <;>
        simp [bars, hended, Except.isOk, Except.toBool]
    exact h.sets hlawful (ended_ok hended) hstatus hactivating hissued hrun
      (hok.prompt.imp_right fun hprompt => hprompt.bars fault rfl t hbars)
  | deprovisions t n =>
    have hissued := h.issued i t n (by rw [hp]; rfl)
    by_cases hcount : w.shared.commands.count t = n
    · simp only [if_pos hcount]
      exact h.returns (hissued.2 hcount) (hok.returns (t, n) (by rw [hp]; rfl) hcount)
    · simp only [if_neg hcount]
      exact h.goesOn rfl rfl rfl fun _ _ => rfl
  | completes t storeId =>
    exact h.goesOn rfl rfl rfl fun _ _ => rfl

theorem barred_step {w w' : Callers ι} {a : ι × Input} (h : Barred catalog w.shared w.phase)
    (hlawful : catalog.Lawful) (hok : Timely cfg catalog w a.1 a.2)
    (hst : Step cfg catalog w a w') : Barred catalog w'.shared w'.phase := by
  obtain ⟨⟨s', p'⟩, hnext, rfl⟩ := hst
  obtain ⟨i, x⟩ := a
  cases x with
  | resume fault => exact h.moves hlawful hok (moves_of_resume hnext)
  | command t =>
    dsimp only at hnext ⊢
    generalize hp : w.phase i = p at hnext
    cases p with
    | idle =>
      cases hnext
      rw [Tasks.put_phase, ← hp, update_eq_self]
      exact h.command t
    | _ => cases hnext
  | call c =>
    dsimp only at hnext
    generalize hp : w.phase i = p at hnext
    cases p with
    | idle =>
      have hbegins : ∀ t, p'.activating = some t →
          t ∈ (Input.call c).activates cfg w.shared → ∀ t' ∈ w.shared.barred,
            p'.activating = some t' → (w.phase i).activating = some t' ∨ catalog.Tombstones := by
        intro t hp' hin t' ht' hp''
        cases hp'.symm.trans hp''
        rcases hok.prompt with htomb | hprompt
        · exact .inr htomb
        · exact absurd ht' (hprompt.begins t hin)
      cases c with
      | provision t =>
        simp only [next, begin] at hnext
        split_ifs at hnext
        cases hnext
        exact h.goesOn rfl rfl rfl (fun _ _ => rfl) (hbegins t rfl rfl)
      | provisionWorker t =>
        simp only [next, begin] at hnext
        split_ifs at hnext
        cases hnext
        exact h.goesOn rfl rfl rfl fun _ _ => rfl
      | deprovision t confirm =>
        cases hnext
        cases confirm with
        | true | false =>
          exact h.goesOn rfl rfl rfl fun _ _ => rfl
      | onNodeReady t storeId =>
        obtain ⟨seen, he, -, -, -, hphase⟩ := onNodeReady_cases cfg t storeId w.shared
        have hq : onNodeReady cfg t storeId w.shared = (s', p') := Option.some.inj hnext
        rw [hq] at he hphase
        obtain rfl : s' = _ := he
        rcases hphase with ⟨rfl, -⟩ | ⟨rfl, hreport⟩
        · exact h.goesOn rfl rfl rfl fun _ _ => rfl
        · exact h.goesOn rfl rfl rfl (fun _ _ => rfl)
            (hbegins t rfl (by simp only [Input.activates, if_pos hreport]; rfl))
    | _ => cases hnext

/-- A worker's provisioner is not run for a tenant that is gone, and the tenant stays gone until a
command for it is issued. -/
theorem gone_step {w w' : Callers ι} {a : ι × Input} {t : String}
    (h : Barred catalog w.shared w.phase) (hgone : t ∈ w.shared.gone) (ha : a.2 ≠ .command t)
    (hst : Step cfg catalog w a w') :
    t ∈ w'.shared.gone ∧ w'.shared.workerRuns.count t = w.shared.workerRuns.count t := by
  obtain ⟨⟨s', p'⟩, hnext, rfl⟩ := hst
  obtain ⟨i, x⟩ := a
  dsimp only at hnext
  generalize hp : w.phase i = p at hnext
  cases x with
  | resume fault =>
    have hm := moves_of_resume hnext
    cases hm with
    | runs t' =>
      have hne : t' ≠ t := by
        rintro rfl
        exact (h.gone t' hgone).2 i hp
      exact ⟨hgone, by simp [hne]⟩
    | deprovisions t' n =>
      refine ⟨?_, rfl⟩
      simp only [Tasks.put_shared]
      split_ifs
      · exact Finset.mem_insert_of_mem hgone
      · exact hgone
    | _ => exact ⟨hgone, rfl⟩
  | command t' =>
    cases p with
    | idle =>
      cases hnext
      refine ⟨Finset.mem_erase.mpr ⟨?_, hgone⟩, rfl⟩
      rintro rfl
      exact ha rfl
    | _ => cases hnext
  | call c =>
    cases p with
    | idle =>
      cases c with
      | provision t' | provisionWorker t' =>
        simp only [next, begin] at hnext
        split_ifs at hnext
        cases hnext
        exact ⟨hgone, rfl⟩
      | deprovision t' confirm =>
        cases hnext
        exact ⟨hgone, rfl⟩
      | onNodeReady t' storeId =>
        obtain ⟨seen, he, -⟩ := onNodeReady_cases cfg t' storeId w.shared
        have hq : onNodeReady cfg t' storeId w.shared = (s', p') := Option.some.inj hnext
        rw [hq] at he
        obtain rfl : s' = _ := he
        exact ⟨hgone, rfl⟩
    | _ => cases hnext

end

section

variable [DecidableEq ι] {l : List (ι × Input)} {w : Callers ι}

theorem barred_run (hlawful : catalog.Lawful)
    (hrun : Guarded (Step cfg catalog) (fun _ w a => Timely cfg catalog w a.1 a.2) (fresh ι rows)
      l w) : Barred catalog w.shared w.phase := by
  refine hrun.invariant (I := fun _ w => Barred catalog w.shared w.phase) ?_
    fun l w a w' _ hok hst h => barred_step h hlawful hok hst
  constructor <;> simp [fresh, Phase.issued]

/-- **A late message does not resurrect a tenant**, in every run whose steps are timely. -/
theorem stays_gone (hlawful : catalog.Lawful)
    (hrun : Guarded (Step cfg catalog) (fun _ w a => Timely cfg catalog w a.1 a.2) (fresh ι rows)
      l w) : StaysGone cfg catalog rows l w := by
  constructor
  · intro t ht descriptor hrow
    obtain ⟨found, hfound, hstatus⟩ := (barred_run hlawful hrun).row t ht
    obtain rfl := Option.some.inj (hfound.symm.trans hrow)
    rcases hstatus with hstatus | hstatus <;> simp [hstatus]
  · rintro l₀ l₁ u t rfl hu hgone hnone
    have hdet : ∀ (w : Callers ι) a w₁ w₂, Step cfg catalog w a w₁ → Step cfg catalog w a w₂ →
        w₁ = w₂ := fun _ _ _ _ => Tasks.Step.det
    have hlater := hrun.invariant_from
      (I := fun l w => (∀ l', l = l₀ ++ l' → ∀ i, (i, Input.command t) ∉ l') →
        t ∈ w.shared.gone ∧ w.shared.workerRuns.count t = u.shared.workerRuns.count t)
      hdet hu (fun _ => ⟨hgone, rfl⟩) ?_
    · exact (hlater fun l' hl' => List.append_cancel_left hl' ▸ hnone).2
    · rintro l w a w' - hw - hst ⟨l', rfl⟩ h hlabels
      have hlabels' := hlabels (l' ++ [a]) (List.append_assoc ..)
      obtain ⟨hin, hcount⟩ := h fun l'' hl'' i hi => hlabels' i
        (List.mem_append_left _ (List.append_cancel_left hl'' ▸ hi))
      have ha : a.2 ≠ .command t := by
        intro heq
        refine hlabels' a.1 (List.mem_append_right _ (List.mem_singleton.mpr ?_))
        rw [← heq]
      obtain ⟨hin', hcount'⟩ := gone_step (barred_run hlawful hw) hin ha hst
      exact ⟨hin', hcount'.trans hcount⟩

end

/-- A tenant is deprovisioned, and a command to provision it is delivered to a worker after that. -/
theorem stays_gone_acme :
    ∃ (l : List (Fin 3 × Input)) (w : Callers (Fin 3)), w.phase 1 = .returned ∧
      "acme" ∈ w.shared.gone ∧ StaysGone .oneStore StaticTenantCatalog
        (.set .empty "acme" { tenantId := "acme", status := .active }) l w := by
  have hcheck : ∀ (_ : List (Fin 3 × Input)) (w : Callers (Fin 3)) (a : Fin 3 × Input),
      (Prompt .oneStore StaticTenantCatalog w a.1 a.2 ∧
        (∀ q ∈ (w.phase a.1).last, w.shared.commands.count q.1 = q.2 →
          ∀ j, w.phase j ≠ .workerRun q.1) ∧
        ∀ t ∈ w.shared.gone, w.phase a.1 = .workerGet t →
          ∀ fault ∈ a.2.fault, ∀ e ∈ fault, notFound e = false) →
      Timely .oneStore StaticTenantCatalog w a.1 a.2 := fun _ _ _ h => ⟨.inr h.1, h.2.1, h.2.2⟩
  have hrun : Guarded (Step .oneStore StaticTenantCatalog)
      (fun _ w a => Timely .oneStore StaticTenantCatalog w a.1 a.2)
      (fresh (Fin 3) (.set .empty "acme" { tenantId := "acme", status := .active }))
      [(2, .command "acme"), (0, .call (.deprovision "acme" true)), (0, .resume none),
        (0, .resume none), (0, .resume none), (0, .resume none), (0, .resume none),
        (1, .call (.provisionWorker "acme")), (1, .resume none)] _ :=
    Tasks.guarded_of_isSome hcheck (by decide +kernel)
  exact ⟨_, _, by decide +kernel, by decide +kernel, stays_gone StaticTenantCatalog_lawful hrun⟩

/-- A worker has reported a tenant that is deprovisioned before the report is delivered. -/
theorem acme_resurrected :
    ∃ (l : List (Fin 4 × Input)) (w : Callers (Fin 4)),
      Run (Step .oneStore StaticTenantCatalog)
        (fresh (Fin 4) (.set .empty "acme" { tenantId := "acme" })) l w ∧
      ¬StaysGone .oneStore StaticTenantCatalog (.set .empty "acme" { tenantId := "acme" }) l w := by
  have hrun : Tasks.advance (next .oneStore StaticTenantCatalog)
      (fresh (Fin 4) (.set .empty "acme" { tenantId := "acme" }))
      [(3, .command "acme"), (0, .call (.provisionWorker "acme")), (0, .resume none),
        (0, .resume none), (0, .resume none), (1, .call (.deprovision "acme" true)),
        (1, .resume none), (1, .resume none), (1, .resume none), (1, .resume none),
        (1, .resume none), (2, .call (.onNodeReady "acme" "orders")), (2, .resume none)] =
      some _ := rfl
  refine ⟨_, _, Tasks.run_of_advance hrun, fun hgone => ?_⟩
  exact absurd rfl (hgone.1 "acme" (by decide +kernel) { tenantId := "acme", status := .active }
    (by decide +kernel))

end TenantControlService

end Varco
