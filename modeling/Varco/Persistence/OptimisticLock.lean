import Mathlib.Data.Int.Order.Basic
import Varco.Foundations.Run
import Varco.Persistence.Mapper

/-!
# Optimistic locking

Concurrent units of work that load, change and save versioned entities, over
`AsyncSQLAlchemyRepository` and over `AsyncBeanieRepository`. `sync_to_orm` compares the version of
an entity with that of the ORM object that it was loaded into, which nobody else writes to: the
comparison says nothing about the row. No update is lost as long as the row has the version of the
object whenever an entity is saved (`no_lost_update`).
-/

namespace Varco

open List Function

/-! ## Consecutive versions -/

/-- The numbers are consecutive from `v` on. -/
def Consecutive (v : ℤ) : List ℤ → Prop
  | [] => True
  | a :: l => a = v ∧ Consecutive (v + 1) l

namespace Consecutive

variable {v : ℤ} {l l' : List ℤ}

theorem append (h : Consecutive v l) (h' : Consecutive (v + l.length) l') :
    Consecutive v (l ++ l') := by
  induction l generalizing v with
  | nil => simpa using h'
  | cons a l ih =>
    refine ⟨h.1, ih h.2 ?_⟩
    rw [length_cons, show v + ((l.length + 1 : ℕ) : ℤ) = v + 1 + l.length by omega] at h'
    exact h'

theorem le_of_mem {a : ℤ} (h : Consecutive v l) (ha : a ∈ l) : v ≤ a := by
  induction l generalizing v with
  | nil => exact absurd ha not_mem_nil
  | cons b l ih =>
    rcases mem_cons.mp ha with rfl | ha
    · exact h.1.ge
    · have := ih h.2 ha
      omega

theorem nodup (h : Consecutive v l) : l.Nodup := by
  induction l generalizing v with
  | nil => exact .nil
  | cons a l ih =>
    refine nodup_cons.mpr ⟨fun ha => ?_, ih h.2⟩
    have := h.2.le_of_mem ha
    have := h.1
    omega

end Consecutive

namespace OptimisticLock

/-- An entity of a version was saved. -/
structure Save (U PK : Type) where
  uow : U
  pk : PK
  version : ℤ

/-- A call of `save`, and how it ended. -/
structure SaveCall (U PK : Type) extends Save U PK where
  outcome : Except PyException Unit

section

variable {U PK V : Type} [DecidableEq PK]

def savesOf (log : List (Save U PK)) (pk : PK) : List ℤ :=
  (log.filter (·.pk = pk)).map (·.version)

@[simp] theorem savesOf_append (log log' : List (Save U PK)) (pk : PK) :
    savesOf (log ++ log') pk = savesOf log pk ++ savesOf log' pk := by
  unfold savesOf
  rw [filter_append, map_append]

theorem savesOf_self (save : Save U PK) : savesOf [save] save.pk = [save.version] := by
  simp [savesOf]

theorem savesOf_of_ne {save : Save U PK} {pk : PK} (h : save.pk ≠ pk) : savesOf [save] pk = [] := by
  simp [savesOf, h]

/-- **No update is lost**: of a version at most one save has succeeded; the version of a row has
grown by one per save; a row that was deleted is not there; and a save that did not succeed has
raised `StaleEntityError`. -/
structure NoLostUpdate (rows₀ rows : PK → Option (OrmObject PK V)) (log : List (Save U PK))
    (calls : List (SaveCall U PK)) (removed : List PK) : Prop where
  once : ∀ pk, (savesOf log pk).Nodup
  grows : ∀ pk row₀ row, rows₀ pk = some row₀ → rows pk = some row →
    row.rowVersion = row₀.rowVersion + (savesOf log pk).length
  gone : ∀ pk ∈ removed, rows pk = none
  refused : ∀ c ∈ calls, ∀ exc, c.outcome = .error exc → exc.typeName = "StaleEntityError"

/-- The rows, and what was saved of them, from the rows `rows₀`. -/
structure Versions (rows₀ rows : PK → Option (OrmObject PK V)) (log : List (Save U PK)) : Prop where
  consecutive : ∀ pk, ∃ v, Consecutive v (savesOf log pk) ∧
    (∀ row₀, rows₀ pk = some row₀ → row₀.rowVersion = v) ∧
    ∀ row, rows pk = some row → row.rowVersion = v + (savesOf log pk).length
  present : ∀ pk, rows₀ pk = none → rows pk = none

theorem versions_start (rows₀ : PK → Option (OrmObject PK V)) :
    Versions rows₀ rows₀ ([] : List (Save U PK)) where
  consecutive pk := by
    cases h : rows₀ pk with
    | none => exact ⟨0, trivial, (fun _ h => nomatch h), fun _ h => nomatch h⟩
    | some row₀ =>
      refine ⟨row₀.rowVersion, trivial, fun _ h => ?_, fun _ h => ?_⟩ <;> cases h
      · rfl
      · exact (Int.add_zero _).symm
  present _ h := h

variable {rows₀ rows rows' : PK → Option (OrmObject PK V)} {log log' : List (Save U PK)}

theorem Versions.noLostUpdate (h : Versions rows₀ rows log) {calls : List (SaveCall U PK)}
    {removed : List PK} (hgone : ∀ pk ∈ removed, rows pk = none)
    (hrefused : ∀ c ∈ calls, ∀ exc, c.outcome = .error exc → exc.typeName = "StaleEntityError") :
    NoLostUpdate rows₀ rows log calls removed where
  once pk := by
    obtain ⟨v, hconsecutive, -⟩ := h.consecutive pk
    exact hconsecutive.nodup
  grows pk row₀ row hrow₀ hrow := by
    obtain ⟨v, -, hbase, hversion⟩ := h.consecutive pk
    rw [hbase row₀ hrow₀]
    exact hversion row hrow
  gone := hgone
  refused := hrefused

/-- The rows change with the saves of them: each row is as it was, or gone, or the saves of it go on
from its version. -/
theorem Versions.step (h : Versions rows₀ rows log)
    (hstep : ∀ pk, (savesOf log' pk = [] ∧ (rows' pk = rows pk ∨ rows' pk = none)) ∨
      ∃ row row', rows pk = some row ∧ rows' pk = some row' ∧
        Consecutive row.rowVersion (savesOf log' pk) ∧
        row'.rowVersion = row.rowVersion + (savesOf log' pk).length) :
    Versions rows₀ rows' (log ++ log') where
  consecutive pk := by
    obtain ⟨v, hconsecutive, hbase, hversion⟩ := h.consecutive pk
    refine ⟨v, ?_, hbase, ?_⟩ <;> rw [savesOf_append]
    · rcases hstep pk with ⟨hnone, -⟩ | ⟨row, row', hrow, -, hsaves, -⟩
      · rwa [hnone, append_nil]
      · rw [hversion row hrow] at hsaves
        exact hconsecutive.append hsaves
    · intro row'' hrow''
      rcases hstep pk with ⟨hnone, heq | heq⟩ | ⟨row, row', hrow, hrow', -, hgrows⟩
      · rw [hnone, append_nil]
        exact hversion row'' (heq ▸ hrow'')
      · rw [heq] at hrow''
        cases hrow''
      · rw [hrow'] at hrow''
        cases hrow''
        rw [hgrows, hversion row hrow, length_append]
        omega
  present pk hnone := by
    rcases hstep pk with ⟨-, heq | heq⟩ | ⟨row, row', hrow, -⟩
    · rw [heq]
      exact h.present pk hnone
    · exact heq
    · rw [h.present pk hnone] at hrow
      cases hrow

theorem Versions.remove (h : Versions rows₀ rows log) (pk : PK) :
    Versions rows₀ (update rows pk none) log := by
  have hversions : Versions rows₀ (update rows pk none) (log ++ []) := by
    refine h.step fun pk' => .inl ⟨rfl, ?_⟩
    by_cases hne : pk' = pk
    · rw [hne]
      exact .inr (update_self ..)
    · exact .inl (update_of_ne hne ..)
  rwa [append_nil] at hversions

theorem gone_remove {removed : List PK} {pk pk' : PK} (h : ∀ pk ∈ removed, rows pk = none)
    (hpk : pk' ∈ removed ++ [pk]) : update rows pk none pk' = none := by
  by_cases hne : pk' = pk
  · rw [hne]
    exact update_self ..
  · refine (update_of_ne hne ..).trans ?_
    rcases mem_append.mp hpk with hpk | hpk
    · exact h pk' hpk
    · exact absurd (mem_singleton.mp hpk) hne

end

/-! ## `AsyncSQLAlchemyRepository` -/

/-- What happens next. -/
inductive Move (U PK B : Type)
  | load (u : U) (pk : PK)
  | save (u : U) (entity : DomainModel PK B) (body : B) (now : Instant)
  | commit (u : U)
  | rollback (u : U)
  | remove (pk : PK)

namespace SA

/-- What an `UPDATE` sets a column to: only what has changed since the object was loaded. -/
def column {C : Type} [DecidableEq C] (old new stored : C) : C := if new = old then stored else new

variable {U PK F X : Type} [DecidableEq U] [DecidableEq PK] [DecidableEq X]

/-- The row after the `UPDATE` of an object that was `o` and is `o'`. -/
def flushed (o o' row : OrmObject PK (F → X)) : OrmObject PK (F → X) :=
  { pk := row.pk
    body := fun f => column (o.body f) (o'.body f) (row.body f)
    createdAt := column o.createdAt o'.createdAt row.createdAt
    updatedAt := column o.updatedAt o'.updatedAt row.updatedAt
    definitionVersion := column o.definitionVersion o'.definitionVersion row.definitionVersion
    rowVersion := column o.rowVersion o'.rowVersion row.rowVersion }

/-- The committed rows, the rows that open transactions have written, and what each unit of work
holds: the objects of its session, the entities that it was given, and the saves that it has not
committed. -/
structure State (U PK F X : Type) where
  rows : PK → Option (OrmObject PK (F → X))
  draft : PK → Option (U × OrmObject PK (F → X)) := fun _ => none
  raw : U → PK → Option (OrmObject PK (F → X)) := fun _ _ => none
  entities : U → List (DomainModel PK (F → X)) := fun _ => []
  pending : U → List (Save U PK) := fun _ => []
  log : List (Save U PK) := []
  calls : List (SaveCall U PK) := []
  removed : List PK := []

/-- The row as a statement of `u` sees it: what it has written itself, or what is committed. -/
def State.visible (t : State U PK F X) (u : U) (pk : PK) : Option (OrmObject PK (F → X)) :=
  match t.draft pk with
  | some (q, row) => if q = u then some row else t.rows pk
  | none => t.rows pk

/-- The session of `u` is at its end. -/
def State.close (t : State U PK F X) (u : U) : State U PK F X :=
  { t with
    draft := fun pk => (t.draft pk).filter (·.1 ≠ u)
    raw := update t.raw u fun _ => none
    entities := update t.entities u []
    pending := update t.pending u [] }

/-- An entity has been saved in the transaction of `u`. -/
def State.saved (t : State U PK F X) (u : U) (pk : PK) (version : ℤ)
    (o' row : OrmObject PK (F → X)) : State U PK F X :=
  { t with
    draft := update t.draft pk (some (u, row))
    raw := update t.raw u (update (t.raw u) pk (some o'))
    entities := update t.entities u (t.entities u ++ [AbstractMapper.fromOrm 0 o'])
    pending := update t.pending u (t.pending u ++ [⟨u, pk, version⟩])
    calls := t.calls ++ [⟨⟨u, pk, version⟩, .ok ()⟩] }

/-- One step. The `UPDATE` of a row waits for the transaction that has written it. -/
inductive Step (mapper : AbstractMapper PK) (t : State U PK F X) :
    Move U PK (F → X) → State U PK F X → Prop
  | load {u : U} {pk : PK} {o : OrmObject PK (F → X)}
      (h : (t.raw u pk).or (t.visible u pk) = some o) :
      Step mapper t (.load u pk)
        { t with
          raw := update t.raw u (update (t.raw u) pk (some o))
          entities := update t.entities u (t.entities u ++ [AbstractMapper.fromOrm 0 o]) }
  | saved {u : U} {pk : PK} {entity : DomainModel PK (F → X)} {body : F → X} {now : Instant}
      {o o' row : OrmObject PK (F → X)} (he : entity ∈ t.entities u) (hpk : entity.pk = some pk)
      (hraw : t.raw u pk = some o) (hsync : mapper.syncToOrm now (entity.replace body) o = .ok o')
      (hfree : ∀ q row, t.draft pk = some (q, row) → q = u) (hrow : t.visible u pk = some row) :
      Step mapper t (.save u entity body now)
        (t.saved u pk entity.rowVersion o' (flushed o o' row))
  | stale {u : U} {pk : PK} {entity : DomainModel PK (F → X)} {body : F → X} {now : Instant}
      {o : OrmObject PK (F → X)} {exc : PyException} (he : entity ∈ t.entities u)
      (hpk : entity.pk = some pk) (hraw : t.raw u pk = some o)
      (hsync : mapper.syncToOrm now (entity.replace body) o = .error exc) :
      Step mapper t (.save u entity body now)
        { t with calls := t.calls ++ [⟨⟨u, pk, entity.rowVersion⟩, .error exc⟩] }
  -- the flush finds no row, which ends the transaction
  | lost {u : U} {pk : PK} {entity : DomainModel PK (F → X)} {body : F → X} {now : Instant}
      {o o' : OrmObject PK (F → X)} (he : entity ∈ t.entities u) (hpk : entity.pk = some pk)
      (hraw : t.raw u pk = some o) (hsync : mapper.syncToOrm now (entity.replace body) o = .ok o')
      (hfree : ∀ q row, t.draft pk = some (q, row) → q = u) (hrow : t.visible u pk = none) :
      Step mapper t (.save u entity body now)
        { t.close u with calls := t.calls ++ [⟨⟨u, pk, entity.rowVersion⟩, .error ⟨"StaleDataError",
          "UPDATE statement on table expected to update 1 row(s); 0 were matched."⟩⟩] }
  | commit {u : U} :
      Step mapper t (.commit u)
        { t.close u with rows := t.visible u, log := t.log ++ t.pending u }
  | rollback {u : U} : Step mapper t (.rollback u) (t.close u)
  | remove {pk : PK} (hfree : t.draft pk = none) :
      Step mapper t (.remove pk)
        { t with rows := update t.rows pk none, removed := t.removed ++ [pk] }

/-- When an entity is saved, the row has the version of the object, if the entity has. -/
def InTurn (t : State U PK F X) : Move U PK (F → X) → Prop
  | .save u entity _ _ => ∀ pk o, entity.pk = some pk → t.raw u pk = some o →
      o.rowVersion = entity.rowVersion →
      ∃ row, t.visible u pk = some row ∧ row.rowVersion = entity.rowVersion
  | _ => True

/-- What holds throughout. A row that is being written is there, and the saves that are not
committed go on from its version. -/
structure Invariant (rows₀ : PK → Option (OrmObject PK (F → X))) (t : State U PK F X) : Prop where
  versions : Versions rows₀ t.rows t.log
  gone : ∀ pk ∈ t.removed, t.rows pk = none
  refused : ∀ c ∈ t.calls, ∀ exc, c.outcome = .error exc → exc.typeName = "StaleEntityError"
  draft : ∀ pk u row', t.draft pk = some (u, row') → ∃ row, t.rows pk = some row ∧
    Consecutive row.rowVersion (savesOf (t.pending u) pk) ∧
    row'.rowVersion = row.rowVersion + (savesOf (t.pending u) pk).length
  pending : ∀ u pk, (∀ row', t.draft pk ≠ some (u, row')) → savesOf (t.pending u) pk = []

variable {mapper : AbstractMapper PK} {t t' : State U PK F X} {a : Move U PK (F → X)}
  {rows₀ : PK → Option (OrmObject PK (F → X))} {u : U} {pk : PK} {row : OrmObject PK (F → X)}

omit [DecidableEq PK] [DecidableEq X] in
theorem visible_of_draft (h : t.draft pk = some (u, row)) :
    t.visible u pk = some row := by
  unfold State.visible
  rw [h]
  exact if_pos rfl

omit [DecidableEq PK] [DecidableEq X] in
theorem visible_of_not_draft (h : ∀ row', t.draft pk ≠ some (u, row')) :
    t.visible u pk = t.rows pk := by
  unfold State.visible
  cases hdraft : t.draft pk with
  | none => rfl
  | some d => exact if_neg fun heq => h d.2 (by rw [hdraft, ← heq])

omit [DecidableEq PK] [DecidableEq X] in
/-- What others have written stays when a session is closed. -/
theorem draft_close {q : U} :
    (t.close u).draft pk = some (q, row) ↔ t.draft pk = some (q, row) ∧ q ≠ u := by
  change (t.draft pk).filter (·.1 ≠ u) = some (q, row) ↔ _
  simp [Option.filter_eq_some_iff]

omit [DecidableEq X] in
/-- Closing a session keeps what is said of the others. -/
theorem Invariant.close (h : Invariant rows₀ t) {rows' : PK → Option (OrmObject PK (F → X))}
    (hrows : ∀ pk, (∀ row', t.draft pk ≠ some (u, row')) → rows' pk = t.rows pk) :
    (∀ pk q row', (t.close u).draft pk = some (q, row') → ∃ row, rows' pk = some row ∧
      Consecutive row.rowVersion (savesOf ((t.close u).pending q) pk) ∧
      row'.rowVersion = row.rowVersion + (savesOf ((t.close u).pending q) pk).length) ∧
    ∀ q pk, (∀ row', (t.close u).draft pk ≠ some (q, row')) →
      savesOf ((t.close u).pending q) pk = [] := by
  constructor
  · intro pk q row' hdraft
    obtain ⟨hdraft, hne⟩ := draft_close.mp hdraft
    rw [hrows pk fun row'' h' => hne (by rw [hdraft] at h'; cases h'; rfl),
      show (t.close u).pending q = t.pending q from update_of_ne hne ..]
    exact h.draft pk q row' hdraft
  · intro q pk hdraft
    by_cases hq : q = u
    · rw [hq, show (t.close u).pending u = [] from update_self ..]
      rfl
    · rw [show (t.close u).pending q = t.pending q from update_of_ne hq ..]
      exact h.pending q pk fun row' h' => hdraft row' (draft_close.mpr ⟨h', hq⟩)

omit [DecidableEq U] [DecidableEq PK] in
theorem rowVersion_flushed {o o' : OrmObject PK (F → X)} (h : o'.rowVersion ≠ o.rowVersion) :
    (flushed o o' row).rowVersion = o'.rowVersion := if_neg h

omit [DecidableEq X] in
/-- A save in turn goes on from the version of the row. -/
theorem Invariant.saved (h : Invariant rows₀ t) {o' row' : OrmObject PK (F → X)} {v : ℤ}
    (hfree : ∀ q row, t.draft pk = some (q, row) → q = u) (hrow : t.visible u pk = some row)
    (hv : row.rowVersion = v) (hv' : row'.rowVersion = v + 1) :
    Invariant rows₀ (t.saved u pk v o' row') := by
  have hself : (t.saved u pk v o' row').pending u = t.pending u ++ [⟨u, pk, v⟩] :=
    update_self ..
  have hother : ∀ q ≠ u, (t.saved u pk v o' row').pending q = t.pending q :=
    fun q hq => update_of_ne hq ..
  -- the saves of other rows are as they were
  have hsaves : ∀ q pk', pk' ≠ pk →
      savesOf ((t.saved u pk v o' row').pending q) pk' = savesOf (t.pending q) pk' := by
    intro q pk' hne
    by_cases hq : q = u
    · rw [hq, hself, savesOf_append, savesOf_of_ne hne.symm, append_nil]
    · rw [hother q hq]
  have hdraft : ∀ pk', pk' ≠ pk → (t.saved u pk v o' row').draft pk' = t.draft pk' :=
    fun pk' hne => update_of_ne hne ..
  refine ⟨h.versions, h.gone, ?_, ?_, ?_⟩
  · intro c hc exc hexc
    rcases mem_append.mp hc with hc | hc
    · exact h.refused c hc exc hexc
    · rw [mem_singleton.mp hc] at hexc
      cases hexc
  · intro pk' q row'' hq
    by_cases hne : pk' = pk
    · rw [hne, show (t.saved u pk v o' row').draft pk = some (u, row') from
        update_self ..] at hq
      cases hq
      rw [hne, hself, savesOf_append, savesOf_self]
      by_cases hmine : ∃ row', t.draft pk = some (u, row')
      · obtain ⟨row'', hd⟩ := hmine
        obtain ⟨c, hc, hconsecutive, hversion⟩ := h.draft pk u row'' hd
        rw [visible_of_draft hd] at hrow
        cases hrow
        refine ⟨c, hc, hconsecutive.append ⟨?_, trivial⟩, ?_⟩
        · change v = _
          omega
        · rw [length_append, length_singleton]
          omega
      · have hnone : ∀ row', t.draft pk ≠ some (u, row') := fun row' h' => hmine ⟨row', h'⟩
        rw [visible_of_not_draft hnone] at hrow
        rw [h.pending u pk hnone]
        exact ⟨row, hrow, ⟨hv.symm, trivial⟩, by rw [hv', hv]; rfl⟩
    · rw [hdraft pk' hne] at hq
      rw [hsaves q pk' hne]
      exact h.draft pk' q row'' hq
  · intro q pk' hnone
    by_cases hne : pk' = pk
    · rw [hne] at hnone ⊢
      have hq : q ≠ u := by
        rintro rfl
        exact hnone row' (update_self ..)
      rw [hother q hq]
      exact h.pending q pk fun row'' h' => hq (hfree q row'' h')
    · rw [hdraft pk' hne] at hnone
      rw [hsaves q pk' hne]
      exact h.pending q pk' hnone

omit [DecidableEq X] in
/-- What is committed goes on from the versions of the rows. -/
theorem Invariant.versions_commit (h : Invariant rows₀ t) (u : U) :
    Versions rows₀ (t.visible u) (t.log ++ t.pending u) := by
  refine h.versions.step fun pk => ?_
  by_cases hmine : ∃ row', t.draft pk = some (u, row')
  · obtain ⟨row', hd⟩ := hmine
    obtain ⟨row, hrow, hconsecutive, hversion⟩ := h.draft pk u row' hd
    exact .inr ⟨row, row', hrow, visible_of_draft hd, hconsecutive, hversion⟩
  · have hnone : ∀ row', t.draft pk ≠ some (u, row') := fun row' h' => hmine ⟨row', h'⟩
    exact .inl ⟨h.pending u pk hnone, .inl (visible_of_not_draft hnone)⟩

theorem Invariant.step (hversioned : mapper.versioned = true) (h : Invariant rows₀ t)
    (hturn : InTurn t a) (hstep : Step mapper t a t') : Invariant rows₀ t' := by
  cases hstep with
  | load => exact ⟨h.versions, h.gone, h.refused, h.draft, h.pending⟩
  | saved he hpk hraw hsync hfree hrow =>
    obtain ⟨hv, rfl⟩ := (mapper.syncToOrm_ok hversioned).mp hsync
    obtain ⟨row', hrow', hv'⟩ := hturn _ _ hpk hraw hv
    rw [hrow] at hrow'
    cases hrow'
    refine h.saved hfree hrow hv' (rowVersion_flushed ?_)
    rw [hv]
    exact (Int.lt_succ _).ne'
  | stale he hpk hraw hsync =>
    refine ⟨h.versions, h.gone, fun c hc exc hexc => ?_, h.draft, h.pending⟩
    rcases mem_append.mp hc with hc | hc
    · exact h.refused c hc exc hexc
    · rw [mem_singleton.mp hc] at hexc
      cases hexc
      exact mapper.typeName_of_syncToOrm hsync
  | lost he hpk hraw hsync hfree hrow =>
    obtain ⟨hv, -⟩ := (mapper.syncToOrm_ok hversioned).mp hsync
    obtain ⟨row', hrow', -⟩ := hturn _ _ hpk hraw hv
    rw [hrow] at hrow'
    cases hrow'
  | @commit u =>
    have hclose := h.close (u := u) fun pk => visible_of_not_draft
    refine ⟨h.versions_commit u, fun pk hpk => ?_, h.refused, hclose.1, hclose.2⟩
    have hgone := h.gone pk hpk
    rw [← hgone]
    refine visible_of_not_draft fun row' hd => ?_
    obtain ⟨row, hrow, -⟩ := h.draft pk u row' hd
    rw [hgone] at hrow
    cases hrow
  | @rollback u =>
    have hclose := h.close (u := u) fun pk _ => rfl
    exact ⟨h.versions, h.gone, h.refused, hclose.1, hclose.2⟩
  | @remove pk hfree =>
    have hrows : ∀ pk' ≠ pk, update t.rows pk none pk' = t.rows pk' :=
      fun pk' hne => update_of_ne hne ..
    refine ⟨?_, fun pk' hpk' => ?_, h.refused, fun pk' u row' hd => ?_, h.pending⟩
    · exact h.versions.remove pk
    · exact gone_remove h.gone hpk'
    · have hne : pk' ≠ pk := by
        rintro rfl
        rw [hfree] at hd
        cases hd
      obtain ⟨row, hrow, hdraft⟩ := h.draft pk' u row' hd
      exact ⟨row, (hrows pk' hne).trans hrow, hdraft⟩

end SA

/-! ## `AsyncBeanieRepository` -/

namespace Beanie

variable {U PK V : Type} [DecidableEq U] [DecidableEq PK]

/-- The documents, the ORM objects in memory by their references, and the entities of each unit of
work. -/
structure State (U PK V : Type) where
  docs : PK → Option (OrmObject PK V)
  objects : List (OrmObject PK V) := []
  entities : U → List (DomainModel PK V) := fun _ => []
  log : List (Save U PK) := []
  calls : List (SaveCall U PK) := []
  removed : List PK := []

/-- One step. A document is written at once, by `_id`, whether it is there or not. -/
inductive Step (mapper : AbstractMapper PK) (t : State U PK V) :
    Move U PK V → State U PK V → Prop
  | load {u : U} {pk : PK} {doc : OrmObject PK V} (h : t.docs pk = some doc) :
      Step mapper t (.load u pk)
        { t with
          objects := t.objects ++ [doc]
          entities := update t.entities u
            (t.entities u ++ [AbstractMapper.fromOrm t.objects.length doc]) }
  | saved {u : U} {pk : PK} {entity : DomainModel PK V} {body : V} {now : Instant} {ref : ℕ}
      {o o' : OrmObject PK V} (he : entity ∈ t.entities u) (hpk : entity.pk = some pk)
      (href : entity.rawOrm = some ref) (hraw : t.objects[ref]? = some o)
      (hsync : mapper.syncToOrm now (entity.replace body) o = .ok o') :
      Step mapper t (.save u entity body now)
        { t with
          docs := update t.docs pk (some o')
          objects := t.objects.set ref o'
          entities := update t.entities u
            (t.entities u ++ [AbstractMapper.fromOrm ref o'])
          log := t.log ++ [⟨u, pk, entity.rowVersion⟩]
          calls := t.calls ++ [⟨⟨u, pk, entity.rowVersion⟩, .ok ()⟩] }
  | stale {u : U} {pk : PK} {entity : DomainModel PK V} {body : V} {now : Instant} {ref : ℕ}
      {o : OrmObject PK V} {exc : PyException} (he : entity ∈ t.entities u)
      (hpk : entity.pk = some pk) (href : entity.rawOrm = some ref)
      (hraw : t.objects[ref]? = some o)
      (hsync : mapper.syncToOrm now (entity.replace body) o = .error exc) :
      Step mapper t (.save u entity body now)
        { t with calls := t.calls ++ [⟨⟨u, pk, entity.rowVersion⟩, .error exc⟩] }
  | commit {u : U} :
      Step mapper t (.commit u) { t with entities := update t.entities u [] }
  | rollback {u : U} :
      Step mapper t (.rollback u) { t with entities := update t.entities u [] }
  | remove {pk : PK} :
      Step mapper t (.remove pk)
        { t with docs := update t.docs pk none, removed := t.removed ++ [pk] }

/-- When an entity is saved, the document has the version of the object, if the entity has. -/
def InTurn (t : State U PK V) : Move U PK V → Prop
  | .save _ entity _ _ => ∀ pk ref o, entity.pk = some pk → entity.rawOrm = some ref →
      t.objects[ref]? = some o → o.rowVersion = entity.rowVersion →
      ∃ doc, t.docs pk = some doc ∧ doc.rowVersion = entity.rowVersion
  | _ => True

/-- What holds throughout. -/
structure Invariant (docs₀ : PK → Option (OrmObject PK V)) (t : State U PK V) : Prop where
  versions : Versions docs₀ t.docs t.log
  gone : ∀ pk ∈ t.removed, t.docs pk = none
  refused : ∀ c ∈ t.calls, ∀ exc, c.outcome = .error exc → exc.typeName = "StaleEntityError"

variable {mapper : AbstractMapper PK} {t t' : State U PK V} {a : Move U PK V}
  {docs₀ : PK → Option (OrmObject PK V)}

theorem Invariant.step (hversioned : mapper.versioned = true) (h : Invariant docs₀ t)
    (hturn : InTurn t a) (hstep : Step mapper t a t') : Invariant docs₀ t' := by
  cases hstep with
  | load | commit | rollback => exact ⟨h.versions, h.gone, h.refused⟩
  | @saved u pk entity body now ref o o' he hpk href hraw hsync =>
    obtain ⟨hv, rfl⟩ := (mapper.syncToOrm_ok hversioned).mp hsync
    obtain ⟨doc, hdoc, hdv⟩ := hturn pk ref o hpk href hraw hv
    have hdocs : ∀ o' : OrmObject PK V, ∀ pk' ≠ pk,
        update t.docs pk (some o') pk' = t.docs pk' :=
      fun o' pk' hne => update_of_ne hne ..
    refine ⟨h.versions.step fun pk' => ?_, fun pk' hpk' => ?_, fun c hc exc hexc => ?_⟩
    · by_cases hne : pk' = pk
      · rw [hne]
        refine .inr ⟨doc, _, hdoc, update_self .., ?_, ?_⟩
        · rw [savesOf_self, hdv]
          exact ⟨rfl, trivial⟩
        · rw [savesOf_self, hdv]
          rfl
      · exact .inl ⟨savesOf_of_ne (Ne.symm hne), .inl (hdocs _ pk' hne)⟩
    · have hgone := h.gone pk' hpk'
      refine (hdocs _ pk' ?_).trans hgone
      rintro rfl
      rw [hgone] at hdoc
      cases hdoc
    · rcases mem_append.mp hc with hc | hc
      · exact h.refused c hc exc hexc
      · rw [mem_singleton.mp hc] at hexc
        cases hexc
  | stale he hpk href hraw hsync =>
    refine ⟨h.versions, h.gone, fun c hc exc hexc => ?_⟩
    rcases mem_append.mp hc with hc | hc
    · exact h.refused c hc exc hexc
    · rw [mem_singleton.mp hc] at hexc
      cases hexc
      exact mapper.typeName_of_syncToOrm hsync
  | @remove pk =>
    exact ⟨h.versions.remove pk, fun _ => gone_remove h.gone, h.refused⟩

end Beanie

/-! ## No lost update -/

variable {U PK F X V : Type} [DecidableEq U] [DecidableEq PK] [DecidableEq X]

/-- **No update is lost in a run whose saves find the rows at the versions of their objects**, in
either back end. -/
theorem no_lost_update (mapper : AbstractMapper PK) (hversioned : mapper.versioned = true) :
    (∀ (rows : PK → Option (OrmObject PK (F → X))) labels (t : SA.State U PK F X),
      Guarded (SA.Step mapper) (fun _ => SA.InTurn) { rows } labels t →
      NoLostUpdate rows t.rows t.log t.calls t.removed) ∧
    ∀ (docs : PK → Option (OrmObject PK V)) labels (t : Beanie.State U PK V),
      Guarded (Beanie.Step mapper) (fun _ => Beanie.InTurn) { docs } labels t →
      NoLostUpdate docs t.docs t.log t.calls t.removed := by
  constructor
  · intro rows labels t hrun
    have hinv : SA.Invariant rows t := hrun.invariant (I := fun _ => SA.Invariant rows)
      ⟨versions_start rows, fun _ h => absurd h not_mem_nil,
        fun _ h => absurd h not_mem_nil, (fun _ _ _ h => nomatch h), fun _ _ _ => rfl⟩
      fun _ _ _ _ _ hturn hstep hinv => hinv.step hversioned hturn hstep
    exact hinv.versions.noLostUpdate hinv.gone hinv.refused
  · intro docs labels t hrun
    have hinv : Beanie.Invariant docs t := hrun.invariant (I := fun _ => Beanie.Invariant docs)
      ⟨versions_start docs, fun _ h => absurd h not_mem_nil,
        fun _ h => absurd h not_mem_nil⟩
      fun _ _ _ _ _ hturn hstep hinv => hinv.step hversioned hturn hstep
    exact hinv.versions.noLostUpdate hinv.gone hinv.refused

def orderMapper : AbstractMapper ℕ := { className := "Order", reprPk := toString }

def orderRow : OrmObject ℕ (Unit → ℕ) := ⟨7, fun _ => 10, 0, 0, 1, 1⟩

def orderEntity : DomainModel ℕ (Unit → ℕ) := AbstractMapper.fromOrm 0 orderRow

def orderTable : ℕ → Option (OrmObject ℕ (Unit → ℕ)) := fun _ => some orderRow

/-- Two units of work load and save a row one after the other, and a document. -/
theorem no_lost_update_order :
    (∃ t : SA.State Bool ℕ Unit ℕ, t.log = [⟨true, 7, 1⟩, ⟨false, 7, 2⟩] ∧
      NoLostUpdate orderTable t.rows t.log t.calls t.removed) ∧
    ∃ t : Beanie.State Bool ℕ (Unit → ℕ), t.log = [⟨true, 7, 1⟩, ⟨false, 7, 2⟩] ∧
      NoLostUpdate orderTable t.docs t.log t.calls t.removed := by
  have hupdates := no_lost_update (U := Bool) (F := Unit) (X := ℕ) (V := Unit → ℕ) orderMapper rfl
  have hfirst : Guarded (SA.Step orderMapper) (fun _ => SA.InTurn) { rows := orderTable }
      ([] ++ [Move.load true 7] ++ [Move.save true orderEntity (fun _ => 11) 5] ++
        [Move.commit true]) _ :=
    .snoc (.snoc (.snoc .nil trivial (.load rfl)) (by exact fun _ _ _ _ _ => ⟨orderRow, rfl, rfl⟩)
      (.saved mem_cons_self rfl rfl rfl (fun _ _ h => by cases h) rfl)) trivial .commit
  let row : OrmObject ℕ (Unit → ℕ) := ⟨7, fun _ => 11, 0, 5, 1, 2⟩
  have hloaded := hfirst.snoc (a := .load false 7) (by exact trivial) (.load (o := row) rfl)
  have hsaved := hloaded.snoc (a := .save false (AbstractMapper.fromOrm 0 row) (fun _ => 12) 6)
    (by rintro _ _ ⟨⟩ _ _; exact ⟨row, rfl, rfl⟩)
    (.saved mem_cons_self rfl rfl rfl (fun _ _ h => by cases h) rfl)
  have hsecond := hsaved.snoc (a := .commit false) (by exact trivial) .commit
  have hdocument : Guarded (Beanie.Step orderMapper) (fun _ => Beanie.InTurn)
      { docs := orderTable }
      ([] ++ [Move.load true 7] ++ [Move.save true orderEntity (fun _ => 11) 5]) _ :=
    .snoc (.snoc .nil trivial (.load rfl)) (by exact fun _ _ _ _ _ _ _ => ⟨orderRow, rfl, rfl⟩)
      (.saved mem_cons_self rfl rfl rfl rfl)
  have hloaded' := hdocument.snoc (a := .load false 7) (by exact trivial)
    (.load (show _ = some row from rfl))
  have hsecond' := hloaded'.snoc (a := .save false (AbstractMapper.fromOrm 1 row) (fun _ => 12) 6)
    (by rintro _ _ _ ⟨⟩ _ _ _; exact ⟨row, rfl, rfl⟩) (.saved mem_cons_self rfl rfl rfl rfl)
  exact ⟨⟨_, rfl, hupdates.1 _ _ _ hsecond⟩, _, rfl, hupdates.2 _ _ _ hsecond'⟩

/-- **Two units of work that have loaded the same version both save it.** -/
theorem both_saves_succeed :
    ¬ ((∀ (rows : ℕ → Option (OrmObject ℕ (Unit → ℕ))) labels (t : SA.State Bool ℕ Unit ℕ),
        Run (SA.Step orderMapper) { rows } labels t →
        NoLostUpdate rows t.rows t.log t.calls t.removed) ∧
      ∀ (docs : ℕ → Option (OrmObject ℕ ℕ)) labels (t : Beanie.State Bool ℕ ℕ),
        Run (Beanie.Step orderMapper) { docs } labels t →
        NoLostUpdate docs t.docs t.log t.calls t.removed) := by
  rintro ⟨h, -⟩
  have hload : Run (SA.Step orderMapper) ({ rows := orderTable } : SA.State Bool ℕ Unit ℕ)
      [.load true 7, .load false 7] _ := .cons (.load rfl) (.single (.load rfl))
  have hfirst := hload.append (.cons (a := .save true orderEntity (fun _ => 11) 5)
    (.saved mem_cons_self rfl rfl rfl (fun _ _ h => by cases h) rfl)
    (.single (a := .commit true) .commit))
  have hsecond := hfirst.append (.cons (a := .save false orderEntity (fun _ => 12) 6)
    (.saved mem_cons_self rfl rfl rfl (fun _ _ h => by cases h) rfl)
    (.single (a := .commit false) .commit))
  have honce : [(1 : ℤ), 1].Nodup := (h orderTable _ _ hsecond).once 7
  exact absurd honce (by decide)

end OptimisticLock

end Varco
