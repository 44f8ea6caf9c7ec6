import Varco.Foundations.Lasting
import Varco.Service.Base

/-!
# Services with hooks that raise

`create` and `delete` of `AsyncService` with `create_many` and `delete_many` of `BulkServiceMixin`,
for one caller, where every hook, the authorizer, the assembler and the database may raise
(`HookedService`). What a hook may look at is its arguments and the committed rows. A key that the
repository assigns belongs to the DTO. A unit of work is a transaction on the rows, and the database
checks its constraints as it commits.
-/

namespace Varco

namespace AsyncService

variable {PK E C R X : Type}

/-- A service class with `BulkServiceMixin`, as one caller uses it. -/
structure HookedService (PK E C R X : Type) where
  tenantId : Option Json
  preCheck : Except X Unit
  authorize : Dict PK E → Action → Option (PK × E) → Except X Unit
  toDomain : C → Except X E
  prepareForCreate : E → Except X E
  validateEntity : E → Except X Unit
  validateEntityAsync : Dict PK E → E → Except X Unit
  checkEntity : PK → E → Except X Unit
  asyncCheckEntity : Dict PK E → PK → E → Except X Unit
  toReadDto : PK → E → Except X R
  publish : EntityEvent PK R → Except X Unit
  afterCreate : Dict PK E → PK → E → R → Except X Unit
  afterDelete : Dict PK E → PK → Except X Unit
  constraints : Dict PK E → Except X Unit
  notFound : PK → X
  conflict : PK → X

/-- The committed rows, the events, and how often something was committed. -/
structure Books (PK E R : Type) where
  rows : Dict PK E := .empty
  events : List (EntityEvent PK R) := []
  commits : ℕ := 0

/-- An operation of a service that keeps what it has done before it raises. -/
abbrev HookedM (PK E R X α : Type) : Type := Lasting (Books PK E R) X α

abbrev RowsM (PK E X α : Type) : Type := Atomic (Dict PK E) X α

namespace HookedService

variable (s : HookedService PK E C R X)

def run (hook : Dict PK E → Except X Unit) : HookedM PK E R X Unit :=
  .check fun books => hook books.rows

def runInside (hook : Dict PK E → Except X Unit) : RowsM PK E X Unit := fun rows =>
  (hook rows).map fun _ => ((), rows)

/-- `async with self._uow_provider.make_uow()` -/
def unitOfWork {α : Type} (body : RowsM PK E X α) : HookedM PK E R X α :=
  .transaction Books.rows (fun rows books => { books with rows, commits := books.commits + 1 }) do
    let a ← body
    runInside s.constraints
    return a

/-- `_publish_domain_event` -/
def publishEvent (event : EntityEvent PK R) : HookedM PK E R X Unit := do
  run fun _ => s.publish event
  modify fun books => { books with events := books.events ++ [event] }

def newEntity (dto : C) : RowsM PK E X E := do
  let entity ← .lift (s.toDomain dto)
  let entity ← .lift (s.prepareForCreate entity)
  .lift (s.validateEntity entity)
  runInside fun rows => s.validateEntityAsync rows entity
  return entity

def created (pk : PK) (entity : E) (readDto : R) : HookedM PK E R X Unit := do
  s.publishEvent (.created pk s.tenantId readDto)
  run fun rows => s.afterCreate rows pk entity readDto

def deleted (pk : PK) : HookedM PK E R X Unit := do
  s.publishEvent (.deleted pk s.tenantId)
  run fun rows => s.afterDelete rows pk

section

variable [DecidableEq PK]

/-- `repo.save`, of a new entity. -/
def insert (pk : PK) (entity : E) : RowsM PK E X Unit := fun rows =>
  match rows.get? pk with
  | some _ => .error (s.conflict pk)
  | none => .ok ((), rows.set pk entity)

/-- `find_by_id`, and what is checked of an entity that is to be deleted. -/
def findDeletable (pk : PK) : RowsM PK E X Unit := fun rows =>
  match rows.get? pk with
  | none => .error (s.notFound pk)
  | some entity => (do
      .lift (s.checkEntity pk entity)
      runInside fun rows => s.asyncCheckEntity rows pk entity
      runInside fun rows => s.authorize rows .delete (some (pk, entity)) : RowsM PK E X Unit) rows

def create (dto : C × PK) : HookedM PK E R X R := do
  run fun _ => s.preCheck
  run fun rows => s.authorize rows .create none
  let saved ← s.unitOfWork do
    let entity ← s.newEntity dto.1
    s.insert dto.2 entity
    let readDto ← .lift (s.toReadDto dto.2 entity)
    return (entity, readDto)
  s.created dto.2 saved.1 saved.2
  return saved.2

def delete (pk : PK) : HookedM PK E R X Unit := do
  run fun _ => s.preCheck
  s.unitOfWork do
    s.findDeletable pk
    modify fun rows => rows.erase pk
  s.deleted pk

def createMany (dtos : List (C × PK)) : HookedM PK E R X (List R) := do
  if dtos.isEmpty then
    return []
  run fun _ => s.preCheck
  run fun rows => s.authorize rows .create none
  let saved ← s.unitOfWork do
    let entities ← dtos.mapM fun dto => do
      let entity ← s.newEntity dto.1
      return (dto.2, entity)
    let _ ← entities.mapM fun row => s.insert row.1 row.2
    entities.mapM fun row => do
      let readDto ← .lift (s.toReadDto row.1 row.2)
      return (row, readDto)
  let _ ← saved.mapM fun item => s.created item.1.1 item.1.2 item.2
  return saved.map Prod.snd

def deleteMany (pks : List PK) : HookedM PK E R X Unit := do
  if pks.isEmpty then
    return
  run fun _ => s.preCheck
  s.unitOfWork do
    let _ ← pks.mapM s.findDeletable
    modify fun rows => pks.foldl (fun rows pk => rows.erase pk) rows
  let _ ← pks.mapM s.deleted

end

variable {s}

/-! ## What a step does that returns -/

section

variable {books books' : Books PK E R} {rows rows' : Dict PK E} {u : Unit}

theorem run_ok {hook : Dict PK E → Except X Unit} :
    (run hook : HookedM PK E R X Unit).outcome books = (.ok u, books') ↔
      hook books.rows = .ok u ∧ books' = books := Lasting.check_ok

theorem runInside_ok {hook : Dict PK E → Except X Unit} :
    (runInside hook : RowsM PK E X Unit) rows = .ok (u, rows') ↔
      hook rows = .ok u ∧ rows' = rows := by
  unfold runInside
  cases hook rows with
  | error e => exact iff_of_false (fun h => by cases h) fun h => by cases h.1
  | ok v =>
    change Except.ok ((), rows) = _ ↔ _
    rw [Except.ok.injEq, Prod.mk.injEq, and_iff_right rfl, and_iff_right rfl, eq_comm]

theorem unitOfWork_ok {α : Type} {body : RowsM PK E X α} {a : α} :
    (s.unitOfWork body : HookedM PK E R X α).outcome books = (.ok a, books') ↔
      ∃ rows, body books.rows = .ok (a, rows) ∧ s.constraints rows = .ok () ∧
        books' = { books with rows, commits := books.commits + 1 } := by
  unfold unitOfWork
  rw [Lasting.transaction_ok]
  constructor
  · rintro ⟨rows, hbody, rfl⟩
    obtain ⟨a', rows', hbody, hrest⟩ := Atomic.bind_ok.mp hbody
    obtain ⟨_, rows'', hcheck, hpure⟩ := Atomic.bind_ok.mp hrest
    obtain ⟨hcheck, rfl⟩ := runInside_ok.mp hcheck
    obtain ⟨rfl, rfl⟩ := Atomic.pure_ok.mp hpure
    exact ⟨_, hbody, hcheck, rfl⟩
  · rintro ⟨rows, hbody, hcheck, rfl⟩
    refine ⟨rows, Atomic.bind_ok.mpr ⟨a, rows, hbody, Atomic.bind_ok.mpr ⟨(), rows, ?_, ?_⟩⟩, rfl⟩
    · exact runInside_ok.mpr ⟨hcheck, rfl⟩
    · exact Atomic.pure_ok.mpr ⟨rfl, rfl⟩

theorem publishEvent_ok {event : EntityEvent PK R} :
    (s.publishEvent event).outcome books = (.ok u, books') ↔
      s.publish event = .ok () ∧ books' = { books with events := books.events ++ [event] } := by
  unfold publishEvent
  rw [Lasting.bind_ok]
  constructor
  · rintro ⟨_, books₁, h₁, hmodify⟩
    obtain ⟨hrun, rfl⟩ := run_ok.mp h₁
    cases hmodify
    exact ⟨hrun, rfl⟩
  · rintro ⟨hrun, rfl⟩
    exact ⟨(), books, run_ok.mpr ⟨hrun, rfl⟩, rfl⟩

def Builds (s : HookedService PK E C R X) (dto : C) (entity : E) : Prop :=
  ∃ entity₀, s.toDomain dto = .ok entity₀ ∧ s.prepareForCreate entity₀ = .ok entity ∧
    s.validateEntity entity = .ok ()

theorem newEntity_ok {dto : C} {entity : E} : s.newEntity dto rows = .ok (entity, rows') ↔
    s.Builds dto entity ∧ s.validateEntityAsync rows entity = .ok () ∧ rows' = rows := by
  unfold newEntity
  rw [Atomic.bind_ok]
  constructor
  · rintro ⟨entity₀, rows₀, h₀, k₀⟩
    obtain ⟨entity₁, rows₁, h₁, k₁⟩ := Atomic.bind_ok.mp k₀
    obtain ⟨_, rows₂, h₂, k₂⟩ := Atomic.bind_ok.mp k₁
    obtain ⟨_, rows₃, h₃, k₃⟩ := Atomic.bind_ok.mp k₂
    obtain ⟨hdomain, rfl⟩ := Atomic.lift_ok.mp h₀
    obtain ⟨hprepare, rfl⟩ := Atomic.lift_ok.mp h₁
    obtain ⟨hvalid, rfl⟩ := Atomic.lift_ok.mp h₂
    obtain ⟨hasync, rfl⟩ := runInside_ok.mp h₃
    obtain ⟨rfl, rfl⟩ := Atomic.pure_ok.mp k₃
    exact ⟨⟨entity₀, hdomain, hprepare, hvalid⟩, hasync, rfl⟩
  · rintro ⟨⟨entity₀, hdomain, hprepare, hvalid⟩, hasync, rfl⟩
    refine ⟨entity₀, rows', Atomic.lift_ok.mpr ⟨hdomain, rfl⟩, Atomic.bind_ok.mpr
      ⟨entity, rows', Atomic.lift_ok.mpr ⟨hprepare, rfl⟩, Atomic.bind_ok.mpr
        ⟨(), rows', Atomic.lift_ok.mpr ⟨hvalid, rfl⟩, Atomic.bind_ok.mpr ⟨(), rows', ?_, ?_⟩⟩⟩⟩
    · exact runInside_ok.mpr ⟨hasync, rfl⟩
    · exact Atomic.pure_ok.mpr ⟨rfl, rfl⟩

theorem publishEvent_run_ok {event : EntityEvent PK R} {hook : Dict PK E → Except X Unit} :
    (do
      s.publishEvent event
      run hook : HookedM PK E R X Unit).outcome books = (.ok u, books') ↔
      s.publish event = .ok () ∧ hook books.rows = .ok () ∧
        books' = { books with events := books.events ++ [event] } := by
  rw [Lasting.bind_ok]
  constructor
  · rintro ⟨_, books₁, h₁, h₂⟩
    obtain ⟨hpublish, rfl⟩ := publishEvent_ok.mp h₁
    obtain ⟨hrun, rfl⟩ := run_ok.mp h₂
    exact ⟨hpublish, hrun, rfl⟩
  · rintro ⟨hpublish, hrun, rfl⟩
    exact ⟨(), _, publishEvent_ok.mpr ⟨hpublish, rfl⟩, run_ok.mpr ⟨hrun, rfl⟩⟩

theorem created_ok {pk : PK} {entity : E} {readDto : R} :
    (s.created pk entity readDto).outcome books = (.ok u, books') ↔
      s.publish (.created pk s.tenantId readDto) = .ok () ∧
      s.afterCreate books.rows pk entity readDto = .ok () ∧
      books' = { books with events := books.events ++ [.created pk s.tenantId readDto] } :=
  publishEvent_run_ok

theorem deleted_ok {pk : PK} : (s.deleted pk).outcome books = (.ok u, books') ↔
    s.publish (.deleted pk s.tenantId) = .ok () ∧ s.afterDelete books.rows pk = .ok () ∧
      books' = { books with events := books.events ++ [.deleted pk s.tenantId] } :=
  publishEvent_run_ok

/-- The events of a batch are published, each before its hook runs. -/
theorem publishAll_ok {I : Type} {is : List I} (event : I → EntityEvent PK R)
    (hook : I → Dict PK E → Except X Unit) :
    (∃ us, (is.mapM fun i => (do
        s.publishEvent (event i)
        run (hook i) : HookedM PK E R X Unit)).outcome books = (.ok us, books')) ↔
      (∀ i ∈ is, s.publish (event i) = .ok () ∧ hook i books.rows = .ok ()) ∧
      books' = { books with events := books.events ++ is.map event } := by
  induction is generalizing books with
  | nil =>
    constructor
    · rintro ⟨us, hnil⟩
      obtain ⟨-, rfl⟩ := Lasting.mapM_nil_ok.mp hnil
      simp
    · rintro ⟨-, rfl⟩
      exact ⟨[], Lasting.mapM_nil_ok.mpr ⟨rfl, by simp⟩⟩
  | cons i is ih =>
    have happend : books.events ++ (i :: is).map event =
        (books.events ++ [event i]) ++ is.map event := by simp
    simp only [Lasting.mapM_cons_ok, List.forall_mem_cons, happend]
    constructor
    · rintro ⟨_, _, books₁, us, hhead, hrest, rfl⟩
      obtain ⟨hpublish, hhook, rfl⟩ := publishEvent_run_ok.mp hhead
      obtain ⟨htail, rfl⟩ := ih.mp ⟨us, hrest⟩
      exact ⟨⟨⟨hpublish, hhook⟩, htail⟩, rfl⟩
    · rintro ⟨⟨⟨hpublish, hhook⟩, htail⟩, rfl⟩
      obtain ⟨us, hrest⟩ :=
        (@ih { books with events := books.events ++ [event i] }).mpr ⟨htail, rfl⟩
      exact ⟨() :: us, (), _, us, publishEvent_run_ok.mpr ⟨hpublish, hhook, rfl⟩, hrest, rfl⟩

variable [DecidableEq PK]

theorem insert_ok {pk : PK} {entity : E} : s.insert pk entity rows = .ok (u, rows') ↔
    rows.get? pk = none ∧ rows' = rows.set pk entity := by
  unfold insert
  cases rows.get? pk with
  | some e => exact iff_of_false (fun h => by cases h) fun h => by cases h.1
  | none =>
    dsimp only
    rw [Except.ok.injEq, Prod.mk.injEq, and_iff_right rfl, and_iff_right rfl, eq_comm]

def Found (s : HookedService PK E C R X) (rows : Dict PK E) (pk : PK) (entity : E) : Prop :=
  rows.get? pk = some entity ∧ s.checkEntity pk entity = .ok ()

/-- The checks of an entity that is to be deleted which look at the rows. -/
def MayDelete (s : HookedService PK E C R X) (rows : Dict PK E) (pk : PK) (entity : E) : Prop :=
  s.asyncCheckEntity rows pk entity = .ok () ∧
    s.authorize rows .delete (some (pk, entity)) = .ok ()

theorem findDeletable_ok {pk : PK} : s.findDeletable pk rows = .ok (u, rows') ↔
    (∃ entity, s.Found rows pk entity ∧ s.MayDelete rows pk entity) ∧ rows' = rows := by
  unfold findDeletable Found MayDelete
  cases hget : rows.get? pk with
  | none => exact iff_of_false (fun h => by cases h) fun h => by obtain ⟨⟨_, ⟨⟨⟩, -⟩, -⟩, -⟩ := h
  | some entity =>
    dsimp only
    rw [Atomic.bind_ok]
    constructor
    · rintro ⟨_, rows₁, h₁, h⟩
      obtain ⟨_, rows₂, h₂, h₃⟩ := Atomic.bind_ok.mp h
      obtain ⟨hcheck, rfl⟩ := Atomic.lift_ok.mp h₁
      obtain ⟨hasync, rfl⟩ := runInside_ok.mp h₂
      obtain ⟨hauth, rfl⟩ := runInside_ok.mp h₃
      exact ⟨⟨entity, ⟨rfl, hcheck⟩, hasync, hauth⟩, rfl⟩
    · rintro ⟨⟨_, ⟨⟨⟩, hcheck⟩, hasync, hauth⟩, rfl⟩
      exact ⟨(), _, Atomic.lift_ok.mpr ⟨hcheck, rfl⟩, Atomic.bind_ok.mpr
        ⟨(), _, runInside_ok.mpr ⟨hasync, rfl⟩, runInside_ok.mpr ⟨hauth, rfl⟩⟩⟩

end

end HookedService

end AsyncService

end Varco
