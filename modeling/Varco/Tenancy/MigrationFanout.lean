import Mathlib.Data.List.Count
import Varco.Tenancy.Catalog

/-!
# Migrating every tenant

`TenantFanoutMigrator` of `varco_core.migration.fanout`, over any migrators: `AbstractMigrator` of
`varco_core.migration.base`, whose `check` raises `PendingMigrationsError` when revisions are
pending. `upgrade` makes an outcome of what the migrator of a tenant raises, but not of what its
factory raises; and `check` looks for `False`, which no migrator returns (`accounts_iff`).
-/

namespace Varco

open List

/-! ## Migrators -/

/-- A `SchemaMigrationPlan`, as far as it is looked at: the identifiers of its revisions. -/
structure SchemaMigrationPlan where
  current : List String
  pending : List String

/-- An `AbstractMigrator` of reports `R`. -/
structure AbstractMigrator (R : Type) where
  plan : Except PyException SchemaMigrationPlan
  upgrade : String → Except PyException R
  check : Except PyException SchemaMigrationPlan

/-- `PendingMigrationsError(plan)` -/
def pendingMigrationsError (message : String) : PyException := ⟨"PendingMigrationsError", message⟩

/-- `AbstractMigrator.check`, which a migrator inherits; `describe` is the text of the error. -/
def abstractCheck (describe : SchemaMigrationPlan → String)
    (plan : Except PyException SchemaMigrationPlan) : Except PyException SchemaMigrationPlan := do
  let plan ← plan
  if !plan.pending.isEmpty then throw (pendingMigrationsError (describe plan))
  return plan

/-- `value is False`, of what `check` returns: a plan is not. -/
def SchemaMigrationPlan.isFalse (_ : SchemaMigrationPlan) : Bool := false

/-- `fanout_on_failure` -/
inductive OnFailure
  | stop
  | continue
  deriving DecidableEq

structure TenantMigrationReport (R : Type) where
  globalReport : Option R := none
  perTenant : List (String × R) := []
  failures : List (String × String) := []
  notAttempted : List String := []

/-- A call of foreign code by `upgrade`. -/
inductive FanoutCall
  | globalUpgrade
  | factory (tenantId : String)
  deriving DecidableEq

/-- How `check` ends: it returns, raises `TenantFanoutMigrationError`, or lets an exception of a
migrator or of its factory through. -/
inductive FanoutCheck
  | returned
  | behind (names : List String)
  | raised (exc : PyException)

/-- `TenantFanoutMigrator`, with the tenants of its catalog. -/
structure TenantFanoutMigrator (R : Type) where
  tenants : List TenantDescriptor
  globalMigrator : AbstractMigrator R
  factory : TenantDescriptor → Except PyException (AbstractMigrator R)
  onFailure : OnFailure := .stop
  skipGlobal : Bool := false
  nodup : (tenants.map (·.tenantId)).Nodup

namespace TenantFanoutMigrator

variable {R : Type} (f : TenantFanoutMigrator R) (target : String)

def targetedTenants : List TenantDescriptor :=
  (f.tenants.filter fun d => d.status ∈ [TenantStatus.active, TenantStatus.suspended]).mergeSort
    fun d e => d.tenantId ≤ e.tenantId

/-- The loop of `upgrade`, with its calls. -/
def upgradeLoop : List TenantDescriptor → TenantMigrationReport R →
    List FanoutCall × Except PyException (TenantMigrationReport R)
  | [], report => ([], .ok report)
  | d :: rest, report =>
    if !report.failures.isEmpty && f.onFailure = .stop then
      ([], .ok { report with
        notAttempted := report.notAttempted ++ (d :: rest).map (·.tenantId) })
    else
      match f.factory d with
      | .error e => ([.factory d.tenantId], .error e)
      | .ok migrator =>
        match migrator.upgrade target with
        | .ok r =>
          let out := upgradeLoop rest
            { report with perTenant := report.perTenant ++ [(d.tenantId, r)] }
          (.factory d.tenantId :: out.1, out.2)
        | .error exc =>
          let report := { report with failures := report.failures ++ [(d.tenantId, exc.message)] }
          if f.onFailure = .stop then
            ([.factory d.tenantId], .ok { report with
              notAttempted := report.notAttempted ++ rest.map (·.tenantId) })
          else
            let out := upgradeLoop rest report
            (.factory d.tenantId :: out.1, out.2)

/-- `upgrade(target)`, with its calls. -/
def upgrade : List FanoutCall × Except PyException (TenantMigrationReport R) :=
  if f.skipGlobal then f.upgradeLoop target f.targetedTenants {}
  else
    match f.globalMigrator.upgrade target with
    | .error e => ([.globalUpgrade], .error e)
    | .ok r =>
      let out := f.upgradeLoop target f.targetedTenants { globalReport := some r }
      (.globalUpgrade :: out.1, out.2)

/-- The loop of `check`. -/
def checkLoop : List TenantDescriptor → List String → FanoutCheck
  | [], behind => if behind.isEmpty then .returned else .behind behind
  | d :: rest, behind =>
    match f.factory d with
    | .error e => .raised e
    | .ok migrator =>
      match migrator.check with
      | .error e => .raised e
      | .ok plan => checkLoop rest (if plan.isFalse then behind ++ [d.tenantId] else behind)

def check : FanoutCheck :=
  if f.skipGlobal then f.checkLoop f.targetedTenants []
  else
    match f.globalMigrator.check with
    | .error e => .raised e
    | .ok plan => f.checkLoop f.targetedTenants (if plan.isFalse then ["<global>"] else [])

/-! ## What is asked of it -/

def outcome (d : TenantDescriptor) : Except PyException R := do
  let migrator ← f.factory d
  migrator.upgrade target

def upToFailure : List TenantDescriptor → List TenantDescriptor
  | [] => []
  | d :: rest =>
    match f.outcome target d with
    | .ok _ => d :: upToFailure rest
    | .error _ => [d]

def toAttempt : List TenantDescriptor :=
  if f.onFailure = .stop then f.upToFailure target f.targetedTenants else f.targetedTenants

def globalOutcome : Except PyException (Option R) :=
  if f.skipGlobal then .ok none else (f.globalMigrator.upgrade target).map some

def globalCalls : List FanoutCall := if f.skipGlobal then [] else [.globalUpgrade]

/-- A check that raises `PendingMigrationsError`. -/
def isBehind (check : Except PyException SchemaMigrationPlan) : Bool :=
  match check with
  | .ok _ => false
  | .error e => e.typeName = "PendingMigrationsError"

def behind : List String :=
  (if !f.skipGlobal && isBehind f.globalMigrator.check then ["<global>"] else []) ++
    (f.targetedTenants.filter fun d =>
      isBehind (f.factory d >>= AbstractMigrator.check)).map (·.tenantId)

/-- **What is asked of a fan-out**: the global migration comes first, and nothing after it if it
fails; otherwise exactly the tenants that are to be attempted are, and each targeted tenant stands
in one place of the report. `check` names what is behind, and returns if nothing is. -/
structure Accounts : Prop where
  globalFirst : ∃ tenantCalls, (f.upgrade target).1 = f.globalCalls ++ tenantCalls ∧
    FanoutCall.globalUpgrade ∉ tenantCalls
  failed : ∀ e, f.globalOutcome target = .error e → f.upgrade target = (f.globalCalls, .error e)
  reports : ∀ r, f.globalOutcome target = .ok r → ∃ report, (f.upgrade target).2 = .ok report ∧
    report.globalReport = r ∧
    (f.upgrade target).1 =
      f.globalCalls ++ (f.toAttempt target).map (FanoutCall.factory ·.tenantId) ∧
    ∀ t, (report.perTenant.map Prod.fst ++ report.failures.map Prod.fst ++
      report.notAttempted).count t = if t ∈ f.targetedTenants.map (·.tenantId) then 1 else 0
  checks : f.check = if f.behind.isEmpty then .returned else .behind f.behind

def Quiet {α : Type} (x : Except PyException α) : Prop := ∃ a, x = .ok a

/-! ## Upgrades -/

variable {f target} {d : TenantDescriptor} {rest : List TenantDescriptor}
  {report : TenantMigrationReport R}

/-- The tenants that are to be attempted after a failure, or without one. -/
def attemptOf (f : TenantFanoutMigrator R) (target : String) (l : List TenantDescriptor) :
    List TenantDescriptor :=
  if f.onFailure = .stop then f.upToFailure target l else l

def names (report : TenantMigrationReport R) : List String :=
  report.perTenant.map Prod.fst ++ report.failures.map Prod.fst ++ report.notAttempted

theorem names_ok {t : String} {r : R} :
    (names { report with perTenant := report.perTenant ++ [(t, r)] }).Perm
      (names report ++ [t]) := by
  rw [perm_iff_count]
  intro x
  simp only [names, map_append, map_cons, map_nil, count_append]
  omega

theorem names_failed {t text : String} :
    (names { report with failures := report.failures ++ [(t, text)] }).Perm
      (names report ++ [t]) := by
  rw [perm_iff_count]
  intro x
  simp only [names, map_append, map_cons, map_nil, count_append]
  omega

variable {l : List TenantDescriptor}

/-- **The loop accounts for its tenants** if no factory raises. -/
theorem upgradeLoop_accounts (report : TenantMigrationReport R)
    (hfail : f.onFailure = .stop → report.failures = [])
    (hquiet : ∀ d ∈ f.attemptOf target l, Quiet (f.factory d)) :
    ∃ report', f.upgradeLoop target l report =
        ((f.attemptOf target l).map (FanoutCall.factory ·.tenantId), .ok report') ∧
      report'.globalReport = report.globalReport ∧
      (names report').Perm (names report ++ l.map (·.tenantId)) := by
  induction l generalizing report with
  | nil =>
    refine ⟨report, ?_, rfl, by simp⟩
    unfold attemptOf upToFailure
    simp [upgradeLoop]
  | cons d rest ih =>
    have hgo : (!report.failures.isEmpty && decide (f.onFailure = .stop)) = false := by
      by_cases hstop : f.onFailure = .stop
      · simp [hfail hstop]
      · simp [hstop]
    have hmem : d ∈ f.attemptOf target (d :: rest) := by
      unfold attemptOf upToFailure
      split_ifs
      · cases f.outcome target d <;> simp
      · simp
    obtain ⟨migrator, hfactory⟩ := hquiet d hmem
    have houtcome : f.outcome target d = migrator.upgrade target := by
      rw [outcome, hfactory]
      rfl
    rw [upgradeLoop, hgo]
    simp only [Bool.false_eq_true, if_false, hfactory]
    cases hupgrade : migrator.upgrade target with
    | ok r =>
      have hattempt : f.attemptOf target (d :: rest) = d :: f.attemptOf target rest := by
        unfold attemptOf
        split_ifs
        · rw [upToFailure, houtcome, hupgrade]
        · rfl
      rw [hattempt] at hquiet ⊢
      obtain ⟨report', hloop, hglobal, hperm⟩ := ih
        { report with perTenant := report.perTenant ++ [(d.tenantId, r)] }
        hfail fun d' hd' => hquiet d' (mem_cons_of_mem _ hd')
      refine ⟨report', by simp only [hloop, map_cons], hglobal, hperm.trans ?_⟩
      rw [map_cons, append_cons (names report)]
      exact names_ok.append_right _
    | error exc =>
      have hfailed := @names_failed R report d.tenantId exc.message
      by_cases hstop : f.onFailure = .stop
      · have hattempt : f.attemptOf target (d :: rest) = [d] := by
          rw [attemptOf, if_pos hstop, upToFailure, houtcome, hupgrade]
        refine ⟨{ report with
          failures := report.failures ++ [(d.tenantId, exc.message)]
          notAttempted := report.notAttempted ++ rest.map (·.tenantId) },
          by simp only [if_pos hstop, hattempt]; rfl, rfl, ?_⟩
        rw [map_cons, append_cons (names report)]
        refine .trans (.of_eq ?_) (hfailed.append_right _)
        simp only [names, append_assoc]
      · have hattempt : f.attemptOf target (d :: rest) = d :: f.attemptOf target rest := by
          rw [attemptOf, attemptOf, if_neg hstop, if_neg hstop]
        rw [hattempt] at hquiet ⊢
        obtain ⟨report', hloop, hglobal, hperm⟩ := ih
          { report with failures := report.failures ++ [(d.tenantId, exc.message)] }
          (fun h => absurd h hstop) fun d' hd' => hquiet d' (mem_cons_of_mem _ hd')
        refine ⟨report', by simp only [if_neg hstop, hloop, map_cons], hglobal,
          hperm.trans ?_⟩
        rw [map_cons, append_cons (names report)]
        exact hfailed.append_right _

/-- The factory of a tenant that is to be attempted raises, and so does the loop. -/
theorem upgradeLoop_raises (h : ∃ d ∈ f.attemptOf target l, ¬Quiet (f.factory d)) :
    ∀ r, (f.upgradeLoop target l report).2 = .ok r →
      f.onFailure = .stop ∧ report.failures ≠ [] := by
  induction l generalizing report with
  | nil =>
    obtain ⟨d, hd, -⟩ := h
    unfold attemptOf upToFailure at hd
    simp at hd
  | cons d rest ih =>
    intro r hr
    by_cases hgo : (!report.failures.isEmpty && decide (f.onFailure = .stop)) = true
    · simp only [Bool.and_eq_true, Bool.not_eq_true', decide_eq_true_eq,
        isEmpty_eq_false_iff] at hgo
      exact ⟨hgo.2, hgo.1⟩
    · exfalso
      obtain ⟨x, hx, hloud⟩ := h
      rw [upgradeLoop, if_neg hgo] at hr
      cases hfactory : f.factory d with
      | error e => simp [hfactory] at hr
      | ok migrator =>
        have houtcome : f.outcome target d = migrator.upgrade target := by
          rw [outcome, hfactory]
          rfl
        have hne : x ≠ d := by
          rintro rfl
          exact hloud ⟨migrator, hfactory⟩
        simp only [hfactory] at hr
        unfold attemptOf upToFailure at hx
        rw [houtcome] at hx
        cases hupgrade : migrator.upgrade target with
        | ok r' =>
          simp only [hupgrade] at hr hx
          have hlater : x ∈ f.attemptOf target rest := by
            unfold attemptOf
            split_ifs at hx ⊢ <;> exact (mem_cons.mp hx).resolve_left hne
          obtain ⟨hstop, hfail⟩ := ih ⟨x, hlater, hloud⟩ r hr
          exact hgo (by simpa [hstop] using hfail)
        | error exc =>
          simp only [hupgrade] at hr hx
          by_cases hstop : f.onFailure = .stop
          · rw [if_pos hstop] at hx
            exact hne (mem_singleton.mp hx)
          · rw [if_neg hstop] at hr hx
            have hlater : x ∈ f.attemptOf target rest := by
              rw [attemptOf, if_neg hstop]
              exact (mem_cons.mp hx).resolve_left hne
            exact hstop (ih ⟨x, hlater, hloud⟩ r hr).1

theorem nodup_targeted : (f.targetedTenants.map (·.tenantId)).Nodup := by
  have hperm := mergeSort_perm
    (f.tenants.filter fun d => d.status ∈ [TenantStatus.active, TenantStatus.suspended])
    (fun d e => decide (d.tenantId ≤ e.tenantId))
  exact (hperm.map _).nodup_iff.mpr (f.nodup.sublist (filter_sublist.map _))

/-- `upgrade` is its global call and its loop. -/
theorem upgrade_ok {r : Option R} (h : f.globalOutcome target = .ok r) :
    f.upgrade target = (f.globalCalls ++ (f.upgradeLoop target f.targetedTenants
      { globalReport := r }).1, (f.upgradeLoop target f.targetedTenants
        { globalReport := r }).2) := by
  unfold globalOutcome at h
  unfold upgrade globalCalls
  split_ifs at h ⊢
  · cases h
    rfl
  · cases hglobal : f.globalMigrator.upgrade target with
    | error e =>
      rw [hglobal] at h
      cases h
    | ok r' =>
      rw [hglobal] at h
      cases h
      rfl

theorem upgrade_error {e : PyException} (h : f.globalOutcome target = .error e) :
    f.upgrade target = (f.globalCalls, .error e) := by
  unfold globalOutcome at h
  unfold upgrade globalCalls
  split_ifs at h ⊢
  cases hglobal : f.globalMigrator.upgrade target with
  | error e' =>
    rw [hglobal] at h
    cases h
    rfl
  | ok r' =>
    rw [hglobal] at h
    cases h

theorem mem_upgradeLoop :
    FanoutCall.globalUpgrade ∉ (f.upgradeLoop target l report).1 := by
  induction l generalizing report with
  | nil => simp [upgradeLoop]
  | cons d rest ih =>
    unfold upgradeLoop
    by_cases hgo : (!report.failures.isEmpty && decide (f.onFailure = .stop)) = true
    · simp [hgo]
    · rw [if_neg hgo]
      cases f.factory d with
      | error e => simp
      | ok migrator =>
        cases hupgrade : migrator.upgrade target with
        | ok r => simp [hupgrade, ih]
        | error exc => by_cases hstop : f.onFailure = .stop <;> simp [hupgrade, hstop, ih]

/-! ## Checks -/

theorem checkLoop_quiet (l : List TenantDescriptor) (names : List String) :
    f.checkLoop l names = (if names.isEmpty then .returned else .behind names) ∨
      ∃ e, f.checkLoop l names = .raised e := by
  induction l with
  | nil => exact .inl rfl
  | cons d rest ih =>
    rw [checkLoop]
    cases f.factory d with
    | error e => exact .inr ⟨e, rfl⟩
    | ok migrator =>
      cases hcheck : migrator.check with
      | error e => exact .inr ⟨e, by simp [hcheck]⟩
      | ok plan => simpa [hcheck, SchemaMigrationPlan.isFalse] using ih

theorem checkLoop_raises {names : List String} :
    (∃ e, f.checkLoop l names = .raised e) ↔
      ∃ d ∈ l, ¬Quiet (f.factory d >>= AbstractMigrator.check) := by
  induction l with
  | nil =>
    simp only [checkLoop, not_mem_nil, false_and, exists_false, iff_false]
    split_ifs <;> simp
  | cons d rest ih =>
    rw [checkLoop]
    simp only [mem_cons, exists_eq_or_imp]
    cases f.factory d with
    | error e => simp [Quiet, bind, Except.bind]
    | ok migrator =>
      cases hcheck : migrator.check with
      | error e => simp [Quiet, bind, Except.bind, hcheck]
      | ok plan => simpa [Quiet, bind, Except.bind, hcheck, SchemaMigrationPlan.isFalse] using ih

/-- `check` names what is behind if and only if no check, and no factory of a migrator to check,
raises. -/
theorem checks_iff :
    f.check = (if f.behind.isEmpty then .returned else .behind f.behind) ↔
      (f.skipGlobal = false → Quiet f.globalMigrator.check) ∧
        ∀ d ∈ f.targetedTenants, Quiet (f.factory d >>= AbstractMigrator.check) := by
  have hloop : f.check = f.checkLoop f.targetedTenants [] ∨
      f.skipGlobal = false ∧ ∃ e, f.globalMigrator.check = .error e ∧ f.check = .raised e := by
    unfold check
    split_ifs with hskip
    · exact .inl rfl
    · cases hglobal : f.globalMigrator.check with
      | error e => exact .inr ⟨by simpa using hskip, e, rfl, rfl⟩
      | ok plan => exact .inl rfl
  constructor
  · intro h
    have hnot : ∀ e, f.check ≠ .raised e := by
      intro e
      rw [h]
      split_ifs <;> simp
    refine ⟨fun hskip => ?_, fun d hd => ?_⟩
    · cases hglobal : f.globalMigrator.check with
      | error e =>
        exact absurd (by rw [check, hskip, hglobal]; rfl) (hnot e)
      | ok plan => exact ⟨plan, rfl⟩
    · by_contra hloud
      obtain ⟨e, hraised⟩ := checkLoop_raises.mpr ⟨d, hd, hloud⟩
      rcases hloop with hloop | ⟨-, e', -, hglobal⟩
      · exact hnot e (hloop.trans hraised)
      · exact hnot e' hglobal
  · rintro ⟨hglobal, htenants⟩
    have hcurrent : ∀ x : Except PyException SchemaMigrationPlan, Quiet x → isBehind x = false := by
      rintro x ⟨plan, rfl⟩
      rfl
    have hbehind : f.behind = [] := by
      unfold behind
      rw [filter_eq_nil_iff.mpr fun d hd => by simp [hcurrent _ (htenants d hd)]]
      cases hskip : f.skipGlobal with
      | true => rfl
      | false => simp [hcurrent _ (hglobal hskip)]
    rw [hbehind]
    rcases hloop with hloop | ⟨hskip, e, herror, -⟩
    · rw [hloop]
      rcases @checkLoop_quiet R f f.targetedTenants [] with h | hraises
      · exact h
      · obtain ⟨d, hd, hloud⟩ := checkLoop_raises.mp hraises
        exact absurd (htenants d hd) hloud
    · obtain ⟨plan, hok⟩ := hglobal hskip
      rw [herror] at hok
      cases hok

/-! ## Every tenant -/

/-- **The fan-out accounts for every tenant** if and only if no factory of a tenant that is to be
attempted raises, and no check, with the factory of its migrator, does. -/
theorem accounts_iff (f : TenantFanoutMigrator R) (target : String) :
    f.Accounts target ↔
      ((∃ r, f.globalOutcome target = .ok r) → ∀ d ∈ f.toAttempt target, Quiet (f.factory d)) ∧
        (f.skipGlobal = false → Quiet f.globalMigrator.check) ∧
          ∀ d ∈ f.targetedTenants, Quiet (f.factory d >>= AbstractMigrator.check) := by
  rw [← checks_iff]
  constructor
  · intro h
    refine ⟨?_, h.checks⟩
    rintro ⟨r, hr⟩ d hd
    by_contra hloud
    obtain ⟨report, hreport, -⟩ := h.reports r hr
    rw [upgrade_ok hr] at hreport
    exact (upgradeLoop_raises ⟨d, hd, hloud⟩ report hreport).2 rfl
  · rintro ⟨hquiet, hchecks⟩
    refine ⟨?_, fun e he => upgrade_error he, fun r hr => ?_, hchecks⟩
    · cases hglobal : f.globalOutcome target with
      | error e => exact ⟨[], by rw [upgrade_error hglobal, append_nil], not_mem_nil⟩
      | ok r => exact ⟨_, by rw [upgrade_ok hglobal], mem_upgradeLoop⟩
    · obtain ⟨report, hloop, hreport, hperm⟩ := upgradeLoop_accounts
        { globalReport := r } (fun _ => rfl) (hquiet ⟨r, hr⟩)
      rw [upgrade_ok hr, hloop]
      refine ⟨report, rfl, hreport, rfl, fun t => ?_⟩
      change (names report).count t = _
      rw [hperm.count_eq t]
      exact nodup_targeted.count

/-- A tenant that is behind: what its migrator raises goes through `check`. -/
theorem behind_not_named :
    let plan : SchemaMigrationPlan := ⟨[], ["0001"]⟩
    let tenant : AbstractMigrator Unit :=
      ⟨.ok plan, fun _ => .ok (), abstractCheck (fun _ => "1 revision(s) pending") (.ok plan)⟩
    let f : TenantFanoutMigrator Unit :=
      { tenants := [⟨"acme", none, none, none, .active⟩]
        globalMigrator := ⟨.ok ⟨[], []⟩, fun _ => .ok (), .ok ⟨[], []⟩⟩
        factory := fun _ => .ok tenant
        nodup := by decide }
    f.check = .raised (pendingMigrationsError "1 revision(s) pending") ∧ f.behind = ["acme"] ∧
      ¬f.Accounts "heads" := by
  intro plan tenant f
  have htargeted : f.targetedTenants = [⟨"acme", none, none, none, .active⟩] :=
    mergeSort_singleton _
  have hcheck : f.check = .raised (pendingMigrationsError "1 revision(s) pending") := by
    rw [check, htargeted]
    rfl
  have hbehind : f.behind = ["acme"] := by
    rw [behind, htargeted]
    rfl
  refine ⟨hcheck, hbehind, fun h => ?_⟩
  have hchecks := h.checks
  rw [hcheck, hbehind] at hchecks
  cases hchecks

end TenantFanoutMigrator

end Varco
