import Varco.Event.Serializer

/-!
# Data migrations

`DomainMigrator` of `varco_core.migrator`, whose steps are functions on dictionaries. `migrate` and
`rollback` are given with the steps that they run. Both stamp `definition_version`, the former also
between two migrations in a row; so only steps that do not look at this key compose, and only such
steps are undone (`DomainMigrator.laws`).
-/

namespace Varco

open List

/-- A `dict` of fields: what each key leads to. -/
abbrev FieldDict := String → Option Json

namespace FieldDict

/-- `data["definition_version"] = version` -/
def stamp (version : ℤ) (data : FieldDict) : FieldDict :=
  fun key => if key = "definition_version" then some (.int version) else data key

/-- Equal apart from `definition_version`. -/
def SameFields (d d' : FieldDict) : Prop := ∀ key, key ≠ "definition_version" → d key = d' key

variable {d d' d'' : FieldDict} {version : ℤ}

theorem SameFields.trans (h : SameFields d d') (h' : SameFields d' d'') : SameFields d d'' :=
  fun key hkey => (h key hkey).trans (h' key hkey)

theorem sameFields_stamp : SameFields (stamp version d) d := fun _ hkey => if_neg hkey

theorem stamp_eq (h : SameFields d d') : stamp version d = stamp version d' := by
  funext key
  unfold stamp
  split_ifs with hkey
  · rfl
  · exact h key hkey

end FieldDict

open FieldDict

/-- A function that does not look at `definition_version`. -/
def Blind (f : FieldDict → FieldDict) : Prop := ∀ d d', SameFields d d' → SameFields (f d) (f d')

/-- An element of `steps`: a function with its `__name__`, or a `StepSpec`. -/
inductive MigrationStep
  | plain (name : String) (fn : FieldDict → FieldDict)
  | spec (up : FieldDict → FieldDict) (down : Option (FieldDict → FieldDict)) (name : Option String)
      (upName : String)

namespace MigrationStep

/-- `step(data)` -/
def up : MigrationStep → FieldDict → FieldDict
  | .plain _ fn => fn
  | .spec up _ _ _ => up

/-- `step.down`, if the step is a `StepSpec` with one. -/
def down? : MigrationStep → Option (FieldDict → FieldDict)
  | .plain _ _ => none
  | .spec _ down _ _ => down

/-- `_step_display_name(step)` -/
def displayName : MigrationStep → String
  | .plain name _ => name
  | .spec _ _ (some name) upName => if name = "" then upName else name
  | .spec _ _ none upName => upName

def Undoes (step : MigrationStep) : Prop :=
  ∃ down, step.down? = some down ∧ Blind down ∧ ∀ d, down (step.up d) = d

end MigrationStep

structure MigrationPlan where
  fromVersion : ℤ
  toVersion : ℤ
  steps : List (String × Bool)

def MigrationPlan.canRollback (plan : MigrationPlan) : Bool := plan.steps.all (·.2)

/-- `DomainMigrator`, with the name of its class. -/
structure DomainMigrator where
  className : String
  steps : List MigrationStep

namespace DomainMigrator

variable (m : DomainMigrator) (data : FieldDict) (fromVersion toVersion : ℤ)

def currentVersion : ℤ := m.steps.length + 1

/-- `MigrationError(message)` -/
def migrationError (message : String) : PyException :=
  ⟨"MigrationError", s!"{m.className}: " ++ message⟩

def runSteps : List (MigrationStep × (FieldDict → FieldDict)) → FieldDict →
    List MigrationStep × FieldDict
  | [], data => ([], data)
  | (step, f) :: rest, data =>
    let out := runSteps rest (f data)
    (step :: out.1, out.2)

/-- `migrate(data, from_version)` -/
def migrate : List MigrationStep × Except PyException FieldDict :=
  let cv := m.currentVersion
  if fromVersion < 1 ∨ fromVersion > cv then
    ([], .error (m.migrationError (s!"cannot migrate from version {fromVersion} " ++
      s!"(current_version={cv}). This usually means the DB contains a row written by a newer " ++
      "version of the application.")))
  else
    let out := runSteps ((m.steps.drop (fromVersion - 1).toNat).map fun s => (s, s.up)) data
    (out.1, .ok (out.2.stamp cv))

/-- `dry_run(from_version)` -/
def dryRun : Except PyException MigrationPlan :=
  let cv := m.currentVersion
  if fromVersion < 1 ∨ fromVersion > cv then
    .error (m.migrationError
      s!"cannot plan migration from version {fromVersion} (current_version={cv}).")
  else
    .ok ⟨fromVersion, cv,
      (m.steps.drop (fromVersion - 1).toNat).map fun s => (s.displayName, s.down?.isSome)⟩

/-- `rollback(data, from_version, to_version=to_version)` -/
def rollback : List MigrationStep × Except PyException FieldDict :=
  let cv := m.currentVersion
  if fromVersion < 1 ∨ fromVersion > cv then
    ([], .error (m.migrationError
      s!"cannot rollback from version {fromVersion} (current_version={cv})."))
  else if toVersion < 1 ∨ toVersion > cv then
    ([], .error (m.migrationError
      s!"cannot rollback to version {toVersion} (current_version={cv})."))
  else if toVersion ≥ fromVersion then
    ([], .error (m.migrationError (s!"rollback to_version ({toVersion}) " ++
      s!"must be less than from_version ({fromVersion}).")))
  else
    -- `self.steps[to_version - 1 : from_version - 1]`
    let stepsToUndo := (m.steps.take (fromVersion - 1).toNat).drop (toVersion - 1).toNat
    let missing := (stepsToUndo.filter (·.down?.isNone)).map (·.displayName)
    if !missing.isEmpty then
      ([], .error (m.migrationError ("cannot rollback — the following steps " ++
        s!"have no 'down' function: {pyReprList missing}. " ++
        "Wrap each step in StepSpec(up=..., down=...) to enable rollback.")))
    else
      let out := runSteps (stepsToUndo.reverse.map fun s => (s, s.down?.getD id)) data
      (out.1, .ok (out.2.stamp toVersion))

/-- The migrator with the first `k` steps. -/
def first (k : ℕ) : DomainMigrator := { m with steps := m.steps.take k }

/-- **What is asked of a migrator.** For steps that do not look at `definition_version`, migrating
with the first steps and then with the rest is migrating in one go, and what undoes the steps of a
migration restores the fields. `dry_run` lists the steps that `migrate` runs, and says whether they
can be undone; and no step has run where a version or a missing `down` is rejected. -/
structure Laws : Prop where
  composes : ∀ (k : ℕ) (v : ℤ) (data between : FieldDict), k ≤ m.steps.length →
    (∀ s ∈ m.steps.drop k, Blind s.up) → ((m.first k).migrate data v).2 = .ok between →
      (m.migrate between (k + 1)).2 = (m.migrate data v).2
  plans : ∀ (v : ℤ) (data : FieldDict) (plan : MigrationPlan), m.dryRun v = .ok plan →
    plan.steps = (m.migrate data v).1.map fun s => (s.displayName, s.down?.isSome)
  planned : ∀ (v : ℤ) (data : FieldDict),
    (∃ plan, m.dryRun v = .ok plan) ↔ ∃ out, (m.migrate data v).2 = .ok out
  canRollback : ∀ (v : ℤ) (data : FieldDict) (plan : MigrationPlan), m.dryRun v = .ok plan →
    v < m.currentVersion →
      (plan.canRollback = true ↔ ∃ out, (m.rollback data m.currentVersion v).2 = .ok out)
  undoes : ∀ (v : ℤ) (data migrated : FieldDict), v < m.currentVersion →
    (∀ s ∈ m.steps.drop (v - 1).toNat, s.Undoes) → (m.migrate data v).2 = .ok migrated →
      ∃ restored, (m.rollback migrated m.currentVersion v).2 = .ok restored ∧
        SameFields restored data
  rejects : ∀ (v w : ℤ) (data : FieldDict) (e : PyException),
    ((m.migrate data v).2 = .error e → (m.migrate data v).1 = []) ∧
      ((m.rollback data v w).2 = .error e → (m.rollback data v w).1 = [])

/-! ## Steps in a row -/

variable {m data fromVersion toVersion} {l l' : List MigrationStep} {v w : ℤ} {d d' : FieldDict}

def ups (l : List MigrationStep) (data : FieldDict) : FieldDict := l.foldl (fun d s => s.up d) data

theorem runSteps_map (f : MigrationStep → FieldDict → FieldDict) (l : List MigrationStep)
    (data : FieldDict) :
    runSteps (l.map fun s => (s, f s)) data = (l, l.foldl (fun d s => f s d) data) := by
  induction l generalizing data with
  | nil => rfl
  | cons s l ih => simp [runSteps, ih]

theorem ups_blind (h : ∀ s ∈ l, Blind s.up) (hd : SameFields d d') :
    SameFields (ups l d) (ups l d') := by
  induction l generalizing d d' with
  | nil => exact hd
  | cons s l ih =>
    exact ih (fun s' hs' => h s' (mem_cons_of_mem _ hs')) (h s mem_cons_self _ _ hd)

theorem migrate_eq (h : 1 ≤ v ∧ v ≤ m.currentVersion) : m.migrate data v =
    (m.steps.drop (v - 1).toNat,
      .ok ((ups (m.steps.drop (v - 1).toNat) data).stamp m.currentVersion)) := by
  unfold migrate
  rw [if_neg (by omega), runSteps_map]
  rfl

theorem migrate_rejects (data : FieldDict) (h : ¬(1 ≤ v ∧ v ≤ m.currentVersion)) :
    (m.migrate data v).1 = [] ∧ ∃ e, (m.migrate data v).2 = .error e := by
  unfold migrate
  rw [if_pos (by omega)]
  exact ⟨rfl, _, rfl⟩

theorem range_of_migrate {out : FieldDict} (h : (m.migrate data v).2 = .ok out) :
    1 ≤ v ∧ v ≤ m.currentVersion := by
  by_contra hout
  obtain ⟨-, e, he⟩ := migrate_rejects data hout
  rw [h] at he
  cases he

theorem dryRun_eq (h : 1 ≤ v ∧ v ≤ m.currentVersion) : m.dryRun v = .ok ⟨v, m.currentVersion,
    (m.steps.drop (v - 1).toNat).map fun s => (s.displayName, s.down?.isSome)⟩ := by
  unfold dryRun
  exact if_neg (by omega)

theorem range_of_dryRun {plan : MigrationPlan} (h : m.dryRun v = .ok plan) :
    1 ≤ v ∧ v ≤ m.currentVersion := by
  by_contra hout
  unfold dryRun at h
  rw [if_pos (by omega)] at h
  cases h

/-! ## Rollbacks -/

/-- The steps that a rollback from the current version undoes. -/
theorem rollback_eq (h : 1 ≤ v ∧ v < m.currentVersion) : m.rollback data m.currentVersion v =
    if ∀ s ∈ m.steps.drop (v - 1).toNat, s.down?.isSome then
      ((m.steps.drop (v - 1).toNat).reverse,
        .ok (((m.steps.drop (v - 1).toNat).reverse.foldl (fun d s => s.down?.getD id d)
          data).stamp v))
    else (m.rollback data m.currentVersion v) := by
  split_ifs with hall
  · have htake : m.steps.take (m.currentVersion - 1).toNat = m.steps :=
      take_of_length_le (by unfold currentVersion; omega)
    have hmissing : (m.steps.drop (v - 1).toNat).filter (·.down?.isNone) = [] :=
      filter_eq_nil_iff.mpr fun s hs => by simpa [Option.isSome_iff_ne_none] using hall s hs
    unfold rollback
    rw [if_neg (by omega), if_neg (by omega), if_neg (by omega)]
    simp only [htake, hmissing, map_nil, isEmpty_nil, Bool.not_true, Bool.false_eq_true,
      if_false, runSteps_map]
  · rfl

/-- A step without a `down` is not undone. -/
theorem rollback_missing (data : FieldDict) {s : MigrationStep}
    (hs : s ∈ m.steps.drop (v - 1).toNat)
    (hdown : s.down? = none) : ∃ e, (m.rollback data m.currentVersion v).2 = .error e := by
  have htake : m.steps.take (m.currentVersion - 1).toNat = m.steps :=
    take_of_length_le (by unfold currentVersion; omega)
  have hmem : s.displayName ∈ ((m.steps.drop (v - 1).toNat).filter (·.down?.isNone)).map
      (·.displayName) :=
    mem_map_of_mem (mem_filter.mpr ⟨hs, by simp [hdown]⟩)
  have hmissing : (((m.steps.drop (v - 1).toNat).filter (·.down?.isNone)).map
      (·.displayName)).isEmpty = false := by
    rw [isEmpty_eq_false_iff_exists_mem]
    exact ⟨_, hmem⟩
  unfold rollback
  by_cases hfrom : m.currentVersion < 1 ∨ m.currentVersion > m.currentVersion
  · rw [if_pos hfrom]
    exact ⟨_, rfl⟩
  · rw [if_neg hfrom]
    by_cases hto : v < 1 ∨ v > m.currentVersion
    · rw [if_pos hto]
      exact ⟨_, rfl⟩
    · rw [if_neg hto]
      by_cases hless : v ≥ m.currentVersion
      · rw [if_pos hless]
        exact ⟨_, rfl⟩
      · rw [if_neg hless]
        simp only [htake, hmissing, Bool.not_false, if_true]
        exact ⟨_, rfl⟩

theorem rollback_rejects {e : PyException} (h : (m.rollback data v w).2 = .error e) :
    (m.rollback data v w).1 = [] := by
  unfold rollback at h ⊢
  by_cases hfrom : v < 1 ∨ v > m.currentVersion
  · rw [if_pos hfrom]
  · rw [if_neg hfrom] at h ⊢
    by_cases hto : w < 1 ∨ w > m.currentVersion
    · rw [if_pos hto]
    · rw [if_neg hto] at h ⊢
      by_cases hless : w ≥ v
      · rw [if_pos hless]
      · rw [if_neg hless] at h ⊢
        dsimp only at h ⊢
        split at h
        · rw [if_pos ‹_›]
        · cases h

theorem downs_ups (h : ∀ s ∈ l, s.Undoes) (hd : SameFields d' (ups l d)) :
    SameFields (l.reverse.foldl (fun d s => s.down?.getD id d) d') d := by
  induction l generalizing d with
  | nil => exact hd
  | cons s l ih =>
    obtain ⟨down, hdown, hblind, hinverts⟩ := h s mem_cons_self
    have hrest := ih (fun s' hs' => h s' (mem_cons_of_mem _ hs')) hd
    rw [reverse_cons, foldl_append, foldl_cons, foldl_nil, hdown]
    have hback := hblind _ _ hrest
    rwa [hinverts] at hback

/-! ## The laws -/

/-- **Migrations compose and undo.** -/
theorem laws (m : DomainMigrator) : m.Laws where
  composes k v data between hk hblind hfirst := by
    have hrange := range_of_migrate hfirst
    have hversion : (m.first k).currentVersion = k + 1 := by
      simp [currentVersion, first, hk]
    have hcurrent : m.currentVersion = m.steps.length + 1 := rfl
    rw [hversion] at hrange
    rw [migrate_eq (by omega), Except.ok.injEq] at hfirst
    rw [migrate_eq (by omega), migrate_eq (by omega)]
    have hsplit : m.steps.drop (v - 1).toNat =
        ((m.steps.take k).drop (v - 1).toNat) ++ m.steps.drop k := by
      rw [← drop_append_of_le_length (by rw [length_take]; omega),
        take_append_drop]
    have hk' : ((k : ℤ) + 1 - 1).toNat = k := by omega
    rw [hk', hsplit, Except.ok.injEq]
    refine stamp_eq ?_
    have hups : ups ((m.steps.take k).drop (v - 1).toNat ++ m.steps.drop k) data =
        ups (m.steps.drop k) (ups ((m.steps.take k).drop (v - 1).toNat) data) :=
      foldl_append
    rw [hups, ← hfirst]
    exact ups_blind hblind sameFields_stamp
  plans v data plan hplan := by
    have hrange := range_of_dryRun hplan
    rw [dryRun_eq hrange, Except.ok.injEq] at hplan
    rw [← hplan, migrate_eq hrange]
  planned v data := by
    constructor
    · rintro ⟨plan, hplan⟩
      exact ⟨_, by rw [migrate_eq (range_of_dryRun hplan)]⟩
    · rintro ⟨out, hout⟩
      exact ⟨_, dryRun_eq (range_of_migrate hout)⟩
  canRollback v data plan hplan hless := by
    have hrange := range_of_dryRun hplan
    rw [dryRun_eq hrange, Except.ok.injEq] at hplan
    have hiff : plan.canRollback = true ↔ ∀ s ∈ m.steps.drop (v - 1).toNat, s.down?.isSome := by
      rw [← hplan]
      simp only [MigrationPlan.canRollback, all_map, all_eq_true, Function.comp_apply]
    rw [hiff]
    constructor
    · intro hall
      rw [rollback_eq ⟨hrange.1, hless⟩, if_pos hall]
      exact ⟨_, rfl⟩
    · rintro ⟨out, hout⟩ s hs
      by_contra hno
      obtain ⟨e, he⟩ := rollback_missing data hs (by simpa using hno)
      rw [hout] at he
      cases he
  undoes v data migrated hless hall hmigrated := by
    have hrange := range_of_migrate hmigrated
    rw [migrate_eq hrange, Except.ok.injEq] at hmigrated
    have hsome : ∀ s ∈ m.steps.drop (v - 1).toNat, s.down?.isSome := by
      intro s hs
      obtain ⟨down, hdown, -⟩ := hall s hs
      rw [hdown]
      rfl
    rw [rollback_eq ⟨hrange.1, hless⟩, if_pos hsome]
    refine ⟨_, rfl, sameFields_stamp.trans (downs_ups hall ?_)⟩
    rw [← hmigrated]
    exact sameFields_stamp
  rejects v w data e := by
    refine ⟨fun h => ?_, rollback_rejects⟩
    by_cases hrange : 1 ≤ v ∧ v ≤ m.currentVersion
    · rw [migrate_eq hrange] at h
      cases h
    · exact (migrate_rejects data hrange).1

/-- A step that copies `definition_version` sees the stamp of the migration before it, and one that
swaps it with a field does not restore the field. -/
theorem stamp_seen :
    let copy : MigrationStep := .plain "copy" fun d key =>
      if key = "seen" then d "definition_version" else d key
    let m : DomainMigrator := ⟨"M", [.plain "keep" id, copy]⟩
    let data : FieldDict := fun key => if key = "definition_version" then some (.int 1) else none
    let swap : FieldDict → FieldDict := fun d key => if key = "seen" then d "definition_version"
      else if key = "definition_version" then d "seen" else d key
    let m' : DomainMigrator := ⟨"M", [.spec swap (some swap) none "swap"]⟩
    (∃ between, ((m.first 1).migrate data 1).2 = .ok between ∧
      (m.migrate between 2).2 ≠ (m.migrate data 1).2) ∧
    (∀ d, swap (swap d) = d) ∧ ∃ migrated restored, (m'.migrate data 1).2 = .ok migrated ∧
      (m'.rollback migrated 2 1).2 = .ok restored ∧ ¬ SameFields restored data := by
  intro copy m data swap m'
  refine ⟨⟨_, rfl, fun h => ?_⟩, fun d => ?_, _, _, rfl, rfl, fun h => ?_⟩
  · have hseen := congrArg (fun d => d.map fun d => d "seen") h
    change Except.ok (some (Json.int 2)) = Except.ok (some (Json.int 1)) at hseen
    cases hseen
  · funext key
    by_cases hseen : key = "seen"
    · rw [hseen]
      rfl
    · by_cases hversion : key = "definition_version"
      · rw [hversion]
        rfl
      · simp only [swap, if_neg hseen, if_neg hversion]
  · have hseen := h "seen" (by decide)
    change some (Json.int 2) = none at hseen
    cases hseen

end DomainMigrator

end Varco
