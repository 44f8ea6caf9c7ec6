import Mathlib.Data.Finset.Sort
import Mathlib.Data.String.Basic

/-!
# Migrating up to a target

`BeanieMigrator` of `varco_beanie.migration.migrator` and, over what Alembic does, the reports of
`AlembicMigrator` of `varco_sa.migration.migrator`. `upgrade` and `stamp` of the former do not look
at their target, nor does a report of the latter; and `downgrade` compares the versions with the
text of the target, `"base"` included (`BeanieMigrator.honours_iff`).
-/

namespace Varco

open List

structure Revision where
  id : String
  label : String
  branch : Option String := none
  deriving DecidableEq

/-- `Migration`, by its version and its name. -/
structure Migration where
  version : String
  name : String
  deriving DecidableEq

/-- `Revision(id=m.version, label=m.name)` -/
def Migration.revision (m : Migration) : Revision := { id := m.version, label := m.name }

/-- The target reaches as far as the version: `"heads"` does, `"base"` does not. -/
def Reaches (target version : String) : Prop :=
  target = "heads" ∨ target ≠ "base" ∧ version ≤ target

instance instDecidableReaches (target version : String) : Decidable (Reaches target version) :=
  inferInstanceAs (Decidable (_ ∨ _))

/-- What a call comes to: the migrations that it runs, up or down, in order, the versions that are
then recorded, and the revisions of its report. -/
structure MigrationRun where
  ups : List Migration := []
  downs : List Migration := []
  recorded : Finset String
  report : List Revision := []

inductive IndexMode
  | off
  | check
  | create
  deriving DecidableEq

/-- `BeanieMigrator`: its registry, what its guard reports, if there is one, and the versions that
are recorded. -/
structure BeanieMigrator where
  registry : List Migration
  indexMode : IndexMode := .check
  missingIndexes : Option (List (String × List String)) := none
  applied : Finset String
  distinct : (registry.map (·.version)).Nodup

namespace BeanieMigrator

variable (b : BeanieMigrator) (target : String)

/-- `registry.ordered()` -/
def ordered : List Migration := b.registry.mergeSort fun m m' => m.version ≤ m'.version

def pendingMigrations : List Migration := b.ordered.filter (·.version ∉ b.applied)

def indexPending : List Revision :=
  if b.indexMode = .off then []
  else (b.missingIndexes.getD []).flatMap fun entry =>
    entry.2.map fun label => ⟨s!"index:{entry.1}:{label}", label, some "index"⟩

/-- `record_applied`, of each. -/
def record (migrations : List Migration) : Finset String :=
  b.applied ∪ (migrations.map (·.version)).toFinset

/-- `upgrade(target, dry_run=dry_run)` -/
def upgrade (_target : String) (dryRun : Bool) : MigrationRun :=
  let pending := b.pendingMigrations
  if dryRun then
    { recorded := b.applied, report := pending.map Migration.revision ++ b.indexPending }
  else
    let indexWork := b.indexMode = .create ∧ b.missingIndexes.isSome ∧ b.indexPending ≠ []
    if pending = [] ∧ ¬indexWork then { recorded := b.applied }
    else
      { ups := pending, recorded := b.record pending, report := pending.map Migration.revision }

/-- The loop of `downgrade`: the migrations that are reversed. -/
def downgradeLoop : List String → List Migration
  | [] => []
  | version :: rest =>
    if version ≤ target then []
    else match b.registry.find? (·.version = version) with
      | none => downgradeLoop rest
      | some m => m :: downgradeLoop rest

/-- `downgrade(target)` -/
def downgrade : MigrationRun :=
  let reversed := b.downgradeLoop target (b.applied.sort (· ≥ ·))
  { downs := reversed
    recorded := b.applied \ (reversed.map (·.version)).toFinset
    report := reversed.map Migration.revision }

/-- `stamp(target)` -/
def stamp (_target : String) : MigrationRun :=
  { recorded := b.record b.pendingMigrations }

/-- The pending migrations up to the target. -/
def toApply : List Migration := b.pendingMigrations.filter (Reaches target ·.version)

/-- The versions after the target, newest first. -/
def toReverse : List String := (b.applied.sort (· ≥ ·)).filter (¬Reaches target ·)

/-- **What is asked of the migrator**: each call concerns the revisions up to its target, or after
it, and reports them. -/
structure Honours : Prop where
  upgrade : b.upgrade target false = ⟨b.toApply target, [], b.record (b.toApply target),
    (b.toApply target).map Migration.revision⟩
  dryRun : b.upgrade target true =
    { recorded := b.applied, report := (b.upgrade target false).report }
  downgrade : (b.downgrade target).downs.map (·.version) = b.toReverse target ∧
    (b.downgrade target).recorded = b.applied \ (b.toReverse target).toFinset ∧
      (b.downgrade target).report = (b.downgrade target).downs.map Migration.revision
  stamp : b.stamp target = { recorded := b.record (b.toApply target) }

end BeanieMigrator

/-- `AlembicMigrator` over what Alembic does: the revisions of its scripts in the order of their
application, those that are applied, and which of them `upgrade` and `downgrade` of a target are
about. -/
structure AlembicMigrator where
  revisions : List Revision
  applied : Finset String
  reaches : String → Revision → Bool
  reverses : String → Revision → Bool

namespace AlembicMigrator

variable (a : AlembicMigrator) (target : String)

/-- The pending revisions of `plan`, with some applied. -/
def planned (applied : Finset String) : List Revision := a.revisions.filter (·.id ∉ applied)

/-- What Alembic applies, and reverses. -/
def toApply : List Revision := (a.planned a.applied).filter (a.reaches target)

def toReverse : List Revision :=
  a.revisions.filter fun r => r.id ∈ a.applied ∧ a.reverses target r

/-- `upgrade(target, dry_run=dry_run)`: what is applied, and the report. -/
def upgrade (dryRun : Bool) : List Revision × List Revision :=
  let plan := a.planned a.applied
  if dryRun then ([], plan)
  else if plan = [] then ([], [])
  else (a.toApply target, plan)

/-- The report of `downgrade(target)`. -/
def downgradeReport : List Revision :=
  let planAfter := a.planned (a.applied \ ((a.toReverse target).map (·.id)).toFinset)
  let reversedIds := (planAfter.map (·.id)).toFinset \ ((a.planned a.applied).map (·.id)).toFinset
  planAfter.filter (·.id ∈ reversedIds)

/-- **What is asked of the reports**: they list what is applied, would be, or is reversed. -/
structure Reports : Prop where
  upgrade : (a.upgrade target false).2 = (a.upgrade target false).1
  dryRun : (a.upgrade target true).2 = (a.upgrade target false).1
  downgrade : (a.revisions.map (·.id)).Nodup → a.downgradeReport target = a.toReverse target

end AlembicMigrator

/-! ## When a target is honoured -/

theorem AlembicMigrator.downgradeReport_eq (a : AlembicMigrator) (target : String)
    (h : (a.revisions.map (·.id)).Nodup) : a.downgradeReport target = a.toReverse target := by
  have hreversed : ∀ r ∈ a.revisions,
      (r.id ∈ (a.toReverse target).map (·.id) ↔ r ∈ a.toReverse target) := by
    intro r hr
    refine ⟨fun hid => ?_, mem_map_of_mem⟩
    obtain ⟨r', hr', hid⟩ := mem_map.mp hid
    rwa [← inj_on_of_nodup_map h (mem_of_mem_filter hr') hr hid]
  have hplanned : ∀ (applied : Finset String), ∀ r ∈ a.revisions,
      (r.id ∈ (a.planned applied).map (·.id) ↔ r.id ∉ applied) := by
    intro applied r hr
    constructor
    · intro hid
      obtain ⟨r', hr', hid⟩ := mem_map.mp hid
      simpa [hid] using (mem_filter.mp hr').2
    · exact fun hid => mem_map_of_mem (mem_filter.mpr ⟨hr, by simpa using hid⟩)
  have hfilter : ∀ (applied : Finset String) (p : Revision → Bool), (a.planned applied).filter p =
      a.revisions.filter fun r => p r && decide (r.id ∉ applied) := fun _ _ => filter_filter
  unfold downgradeReport
  rw [hfilter]
  refine filter_congr fun r hr => ?_
  have hafter := hplanned (a.applied \ ((a.toReverse target).map (·.id)).toFinset) r hr
  have hbefore := hplanned a.applied r hr
  have hmem : r ∈ a.toReverse target ↔ r.id ∈ a.applied ∧ a.reverses target r = true := by
    simp [toReverse, hr]
  rw [Bool.eq_iff_iff]
  simp only [Bool.and_eq_true, decide_eq_true_eq, Finset.mem_sdiff, mem_toFinset,
    hreversed r hr, hmem] at hafter hbefore ⊢
  rw [hafter, hbefore]
  tauto

theorem AlembicMigrator.reports_iff (a : AlembicMigrator) {target : String} :
    a.Reports target ↔ ∀ r ∈ a.revisions, r.id ∉ a.applied → a.reaches target r = true := by
  have happly : a.toApply target = a.planned a.applied ↔
      ∀ r ∈ a.revisions, r.id ∉ a.applied → a.reaches target r = true := by
    rw [toApply, filter_eq_self]
    simp [planned]
  rw [← happly]
  constructor
  · intro h
    have hupgrade := h.upgrade
    unfold upgrade at hupgrade
    by_cases hempty : a.planned a.applied = []
    · rw [toApply, hempty]
      rfl
    · simpa [hempty, eq_comm] using hupgrade
  · intro h
    refine ⟨?_, ?_, a.downgradeReport_eq target⟩ <;> unfold upgrade <;>
      by_cases hempty : a.planned a.applied = [] <;> simp [hempty, h]

namespace BeanieMigrator

variable {b : BeanieMigrator} {target : String}

theorem upgrade_false : b.upgrade target false = ⟨b.pendingMigrations, [],
    b.record b.pendingMigrations, b.pendingMigrations.map Migration.revision⟩ := by
  unfold upgrade
  simp only [Bool.false_eq_true, if_false]
  split_ifs with h
  · simp [h.1, record]
  · rfl

theorem toApply_eq_iff : b.toApply target = b.pendingMigrations ↔
    ∀ m ∈ b.registry, m.version ∉ b.applied → Reaches target m.version := by
  rw [toApply, filter_eq_self]
  simp [pendingMigrations, ordered]

theorem version_of_find? {version : String} {m : Migration}
    (h : b.registry.find? (·.version = version) = some m) : m.version = version := by
  simpa using List.find?_some h

/-- The loop reverses what is registered and later than the text of the target. -/
theorem map_downgradeLoop {l : List String} (h : l.Pairwise (· ≥ ·)) :
    (b.downgradeLoop target l).map (·.version) =
      l.filter fun v => target < v ∧ v ∈ b.registry.map (·.version) := by
  induction l with
  | nil => rfl
  | cons v l ih =>
    rw [pairwise_cons] at h
    unfold downgradeLoop
    by_cases hle : v ≤ target
    · -- every later element of the list is an earlier version
      rw [if_pos hle, map_nil, eq_comm, filter_eq_nil_iff]
      intro w hw
      have hwle : w ≤ target := by
        rcases mem_cons.mp hw with rfl | hw
        · exact hle
        · exact (h.1 w hw).trans hle
      simp [not_lt.mpr hwle]
    · rw [if_neg hle]
      cases hfind : b.registry.find? (·.version = v) with
      | none =>
        have hnot : v ∉ b.registry.map (·.version) := by
          simpa using List.find?_eq_none.mp hfind
        rw [filter_cons_of_neg (by simp only [hnot, and_false, decide_false]; decide)]
        exact ih h.2
      | some m =>
        have hv := version_of_find? hfind
        have hmem : v ∈ b.registry.map (·.version) :=
          mem_map.mpr ⟨m, mem_of_find?_eq_some hfind, hv⟩
        rw [filter_cons_of_pos (by simp only [hmem, not_le.mp hle, and_self, decide_true]),
          map_cons, hv]
        exact congrArg _ (ih h.2)

theorem downgrade_iff : (b.downgrade target).downs.map (·.version) = b.toReverse target ↔
    ∀ v ∈ b.applied, ¬Reaches target v ↔ target < v ∧ v ∈ b.registry.map (·.version) := by
  change (b.downgradeLoop target _).map (·.version) = _ ↔ _
  rw [map_downgradeLoop (Finset.pairwise_sort _ _), toReverse]
  constructor
  · intro h v hv
    have hmem := congrArg (v ∈ ·) h
    simpa [hv, iff_comm] using hmem
  · intro h
    refine filter_congr fun v hv => ?_
    simp only [decide_eq_decide]
    exact (h v ((Finset.mem_sort _).mp hv)).symm

/-- **The target is honoured, and what was done reported**, if and only if nothing is pending beyond
the target and no index missing, the applied versions after the target are those later than its
text, and registered, and nothing is pending beyond the target for Alembic. -/
theorem honours_iff (b : BeanieMigrator) (a : AlembicMigrator) (target : String) :
    (b.Honours target ∧ a.Reports target) ↔
      (∀ m ∈ b.registry, m.version ∉ b.applied → Reaches target m.version) ∧
        b.indexPending = [] ∧
          (∀ v ∈ b.applied, ¬Reaches target v ↔
            target < v ∧ v ∈ b.registry.map (·.version)) ∧
              ∀ r ∈ a.revisions, r.id ∉ a.applied → a.reaches target r = true := by
  constructor
  · rintro ⟨hb, ha⟩
    have hpending : b.toApply target = b.pendingMigrations := by
      have hups := congrArg MigrationRun.ups hb.upgrade
      rw [upgrade_false] at hups
      exact hups.symm
    refine ⟨toApply_eq_iff.mp hpending, ?_, downgrade_iff.mp hb.downgrade.1, ?_⟩
    · have hreport := congrArg MigrationRun.report hb.dryRun
      rw [upgrade_false] at hreport
      exact append_right_eq_self.mp hreport
    · exact a.reports_iff.mp ha
  · rintro ⟨hpending, hindex, hdowngrade, hreports⟩
    have happly := toApply_eq_iff.mpr hpending
    have hdowns := downgrade_iff.mpr hdowngrade
    refine ⟨⟨?_, ?_, ⟨hdowns, ?_, rfl⟩, ?_⟩, a.reports_iff.mpr hreports⟩
    · rw [happly, upgrade_false]
    · rw [upgrade_false]
      simp [upgrade, hindex]
    · rw [← hdowns]
      rfl
    · rw [happly]
      rfl

/-- With a target, all that is pending is applied; and `"base"` reverses nothing. -/
theorem target_ignored :
    let b : BeanieMigrator :=
      { registry := [⟨"001", "users"⟩, ⟨"002", "posts"⟩], applied := ∅, distinct := by decide }
    let a : AlembicMigrator := ⟨[], ∅, fun _ _ => true, fun _ _ => true⟩
    b.toApply "001" = [⟨"001", "users"⟩] ∧
      (b.upgrade "001" false).ups = [⟨"001", "users"⟩, ⟨"002", "posts"⟩] ∧
        ({ b with applied := {"001"} }.downgrade "base").downs = [] ∧
          ¬(b.Honours "001" ∧ a.Reports "001") := by
  intro b a
  have hpending : b.pendingMigrations = [⟨"001", "users"⟩, ⟨"002", "posts"⟩] := by
    have hordered : b.ordered = [⟨"001", "users"⟩, ⟨"002", "posts"⟩] := by
      simp [b, ordered, List.mergeSort]
    rw [pendingMigrations, hordered]
    decide
  have hups : (b.upgrade "001" false).ups = [⟨"001", "users"⟩, ⟨"002", "posts"⟩] := by
    rw [upgrade_false, hpending]
  have happly : b.toApply "001" = [⟨"001", "users"⟩] := by
    rw [toApply, hpending]
    decide
  refine ⟨happly, hups, ?_, fun h => ?_⟩
  · rw [downgrade, Finset.sort_singleton]
    decide
  · have h := congrArg MigrationRun.ups h.1.upgrade
    rw [hups, happly] at h
    cases h

end BeanieMigrator

end Varco
