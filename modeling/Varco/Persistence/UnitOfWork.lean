import Varco.Foundations.Lasting
import Varco.Persistence.Mapper

/-!
# Units of work

`SQLAlchemyUnitOfWork` and `BeanieUnitOfWork` with `transactional=True`, and the writing operations
of their repositories. A command that is given the session acts on what the open transaction of the
session sees, and one that is not on the store itself. The operations of a unit of work are
programs that send such commands, and keep ORM objects in memory.

`make_uow` hands the session to a repository of SQLAlchemy, and not to one of Beanie. With the
session, a block is all or nothing (`similar_perform`); without it, a block that raises leaves what
it has done.
-/

namespace Varco

/-! ## Stores, sessions and memory -/

/-- The rows or documents, by their primary keys. A key names its table or collection too. -/
abbrev EntityStore (PK V : Type) := PK → Option (OrmObject PK V)

/-- The ORM objects, by their references, and those of them that the session knows. -/
structure OrmMemory (PK V : Type) where
  objects : List (OrmObject PK V) := []
  identityMap : List ℕ := []

/-- The store, what the transaction of the session sees once a command was sent in it, and the
memory. -/
structure UowWorld (PK V : Type) where
  committed : EntityStore PK V
  draft : Option (EntityStore PK V) := none
  memory : OrmMemory PK V := {}

abbrev Db (PK V α : Type) := Lasting (UowWorld PK V) PyException α

section

variable {PK V : Type}

def UowWorld.view (w : UowWorld PK V) (session : Bool) : EntityStore PK V :=
  if session then w.draft.getD w.committed else w.committed

def UowWorld.setView (w : UowWorld PK V) (session : Bool) (store : EntityStore PK V) :
    UowWorld PK V :=
  if session then { w with draft := some store } else { w with committed := store }

end

namespace Db

variable {PK V α : Type} [DecidableEq PK]

def command (session : Bool) (f : EntityStore PK V → Except PyException (α × EntityStore PK V)) :
    Db PK V α := fun w =>
  match f (w.view session) with
  | .ok (a, store) => (.ok a, w.setView session store)
  | .error e => (.error e, w)

/-- `INSERT`, which raises on a key that is there. -/
def insertCommand (session : Bool) (o : OrmObject PK V) (exc : PyException) : Db PK V Unit :=
  command session fun store =>
    match store o.pk with
    | none => .ok ((), Function.update store o.pk (some o))
    | some _ => .error exc

/-- `UPDATE ... WHERE pk = ...`, which raises unless it finds its row. -/
def updateCommand (session : Bool) (o : OrmObject PK V) : Db PK V Unit :=
  command session fun store =>
    match store o.pk with
    | some _ => .ok ((), Function.update store o.pk (some o))
    | none => .error ⟨"StaleDataError", "UPDATE statement expected to update 1 row(s)"⟩

/-- `Document.save()`: replace the document, or insert it. -/
def replaceCommand (session : Bool) (o : OrmObject PK V) : Db PK V Unit :=
  command session fun store => .ok ((), Function.update store o.pk (some o))

def deleteCommand (session : Bool) (pks : List PK) : Db PK V Unit :=
  command session fun store => .ok ((), fun pk => if pk ∈ pks then none else store pk)

def findCommand (session : Bool) (pk : PK) : Db PK V (Option (OrmObject PK V)) :=
  command session fun store => .ok (store pk, store)

def withMemory (f : OrmMemory PK V → α × OrmMemory PK V) : Db PK V α := fun w =>
  (.ok (f w.memory).1, { w with memory := (f w.memory).2 })

def allocate (o : OrmObject PK V) (known : Bool) : Db PK V ℕ :=
  withMemory fun memory =>
    let ref := memory.objects.length
    (ref, { objects := memory.objects ++ [o]
            identityMap := if known then memory.identityMap ++ [ref] else memory.identityMap })

def object (ref : ℕ) : Db PK V (OrmObject PK V) := do
  match ← withMemory fun memory => (memory.objects[ref]?, memory) with
  | some o => return o
  | none => throw ⟨"AttributeError", "'NoneType' object"⟩

def setObject (ref : ℕ) (o : OrmObject PK V) : Db PK V Unit :=
  withMemory fun memory => ((), { memory with objects := memory.objects.set ref o })

/-- `sync_to_orm` on the object of a reference. -/
def syncObject (mapper : AbstractMapper PK) (now : Instant) (entity : DomainModel PK V) (ref : ℕ) :
    Db PK V (OrmObject PK V) := do
  let o ← object ref
  match mapper.syncToOrm now entity o with
  | .ok o' =>
    setObject ref o'
    return o'
  | .error e => throw e

def notPersisted (mapper : AbstractMapper PK) : PyException :=
  .valueError s!"Cannot delete {mapper.className}: not yet persisted (pk is None)."

end Db

/-! ## Repositories -/

/-- A repository, and whether it has been given the session. -/
structure Repository (PK : Type) where
  mapper : AbstractMapper PK
  session : Bool

/-- The clock, and the key that is assigned to an entity without one. -/
structure Drawn (PK : Type) where
  now : Instant
  newPk : PK

namespace AsyncSQLAlchemyRepository

open Db

variable {PK V : Type} [DecidableEq PK] (repo : Repository PK)

/-- `session.get`: what the identity map knows, or what is read. -/
def get (pk : PK) : Db PK V (Option ℕ) := do
  let known ← withMemory fun memory =>
    (memory.identityMap.find? fun ref => (memory.objects[ref]?.map (·.pk)) = some pk, memory)
  match known with
  | some ref => return some ref
  | none =>
    match ← findCommand repo.session pk with
    | some row => return some (← allocate row true)
    | none => return none

/-- The object of an entity, if the session knows it, and else what is read again. -/
def refetch (entity : DomainModel PK V) (raw : ℕ) : Db PK V (Option ℕ) := do
  let inSession ← withMemory fun memory => (decide (raw ∈ memory.identityMap), memory)
  match inSession, entity.pk with
  | true, _ => return some raw
  | false, some pk => get repo pk
  | false, none => return none

def tracked (entity : DomainModel PK V) (raw : ℕ) : Db PK V ℕ := do
  match ← refetch repo entity raw with
  | some ref => return ref
  | none => throw ⟨"LookupError", s!"Cannot update {repo.mapper.className} with pk=" ++
      (entity.pk.map repo.mapper.reprPk).getD "None" ++ ": record not found in the database."⟩

/-- The `INSERT` of a new entity. -/
def insert (entity : DomainModel PK V) (drawn : Drawn PK) : Db PK V (DomainModel PK V) := do
  let o := AbstractMapper.toOrm drawn.now drawn.newPk entity
  let ref ← allocate o true
  insertCommand repo.session o ⟨"IntegrityError", "duplicate key"⟩
  return AbstractMapper.fromOrm ref o

def save (entity : DomainModel PK V) (drawn : Drawn PK) : Db PK V (DomainModel PK V) := do
  match entity.rawOrm with
  | none => insert repo entity drawn
  | some raw =>
    let ref ← tracked repo entity raw
    let o ← syncObject repo.mapper drawn.now entity ref
    updateCommand repo.session o
    return AbstractMapper.fromOrm ref o

def inserts (entities : List (DomainModel PK V × Drawn PK)) : List (DomainModel PK V × Drawn PK) :=
  entities.filter (·.1.rawOrm.isNone)

def updates (entities : List (DomainModel PK V × Drawn PK)) :
    List (DomainModel PK V × ℕ × Drawn PK) :=
  entities.filterMap fun e => e.1.rawOrm.map fun raw => (e.1, raw, e.2)

/-- `save_many`: what is changed is written when all of it has been synchronised. -/
def saveMany (entities : List (DomainModel PK V × Drawn PK)) :
    Db PK V (List (DomainModel PK V)) := do
  let inserted ← (inserts entities).mapM fun e => insert repo e.1 e.2
  let synced ← (updates entities).mapM fun e => do
    let ref ← tracked repo e.1 e.2.1
    syncObject repo.mapper e.2.2.now e.1 ref
  let _ ← synced.mapM (updateCommand repo.session)
  let updated ← (updates entities).mapM fun e => do
    return AbstractMapper.fromOrm e.2.1 (← object e.2.1)
  return inserted ++ updated

def delete (entity : DomainModel PK V) : Db PK V Unit := do
  match entity.rawOrm with
  | none => throw (notPersisted repo.mapper)
  | some raw =>
    let o ← object raw
    withMemory fun memory => ((), { memory with identityMap := memory.identityMap.erase raw })
    deleteCommand repo.session [o.pk]

def deleteMany (entities : List (DomainModel PK V)) : Db PK V Unit :=
  if entities.isEmpty then pure ()
  else if entities.any (·.rawOrm.isNone) then throw (notPersisted repo.mapper)
  else do
    let pks := entities.filterMap (·.pk)
    deleteCommand repo.session pks
    withMemory fun memory => ((), { memory with
      identityMap := memory.identityMap.filter fun ref =>
        (memory.objects[ref]?.map (·.pk)).all (· ∉ pks) })

end AsyncSQLAlchemyRepository

namespace AsyncBeanieRepository

open Db

variable {PK V : Type} [DecidableEq PK] (repo : Repository PK)

/-- The `INSERT` of a new entity. -/
def insert (entity : DomainModel PK V) (drawn : Drawn PK) : Db PK V (DomainModel PK V) := do
  let o := AbstractMapper.toOrm drawn.now drawn.newPk entity
  let ref ← allocate o false
  insertCommand repo.session o ⟨"DuplicateKeyError", "E11000 duplicate key error collection"⟩
  return AbstractMapper.fromOrm ref o

def update (entity : DomainModel PK V) (ref : ℕ) (drawn : Drawn PK) :
    Db PK V (DomainModel PK V) := do
  let o ← syncObject repo.mapper drawn.now entity ref
  replaceCommand repo.session o
  return AbstractMapper.fromOrm ref o

def save (entity : DomainModel PK V) (drawn : Drawn PK) : Db PK V (DomainModel PK V) :=
  match entity.rawOrm with
  | none => insert repo entity drawn
  | some raw => update repo entity raw drawn

/-- `save_many`: `insert_many` inserts in order up to the first that it cannot. -/
def saveMany (entities : List (DomainModel PK V × Drawn PK)) :
    Db PK V (List (DomainModel PK V)) := do
  let inserted ← (AsyncSQLAlchemyRepository.inserts entities).mapM fun e => insert repo e.1 e.2
  let updated ← (AsyncSQLAlchemyRepository.updates entities).mapM fun e =>
    update repo e.1 e.2.1 e.2.2
  return inserted ++ updated

def delete (entity : DomainModel PK V) : Db PK V Unit := do
  match entity.rawOrm with
  | none => throw (notPersisted repo.mapper)
  | some raw => deleteCommand repo.session [(← object raw).pk]

def deleteMany (entities : List (DomainModel PK V)) : Db PK V Unit :=
  if entities.isEmpty then pure ()
  else if entities.any (·.rawOrm.isNone) then throw (notPersisted repo.mapper)
  else deleteCommand repo.session (entities.filterMap (·.pk))

end AsyncBeanieRepository

/-! ## Blocks -/

/-- A writing operation of a repository. -/
inductive RepositoryCall (PK V : Type)
  | save (entity : DomainModel PK V) (drawn : Drawn PK)
  | saveMany (entities : List (DomainModel PK V × Drawn PK))
  | delete (entity : DomainModel PK V)
  | deleteMany (entities : List (DomainModel PK V))

/-- The two back ends. -/
inductive Backend
  | sqlalchemy
  | beanie
  deriving DecidableEq

namespace UnitOfWork

variable {PK V : Type} [DecidableEq PK]

def perform (backend : Backend) (repo : Repository PK) : RepositoryCall PK V → Db PK V Unit
  | .save entity drawn => do
    let _ ← match backend with
      | .sqlalchemy => AsyncSQLAlchemyRepository.save repo entity drawn
      | .beanie => AsyncBeanieRepository.save repo entity drawn
  | .saveMany entities => do
    let _ ← match backend with
      | .sqlalchemy => AsyncSQLAlchemyRepository.saveMany repo entities
      | .beanie => AsyncBeanieRepository.saveMany repo entities
  | .delete entity =>
    match backend with
    | .sqlalchemy => AsyncSQLAlchemyRepository.delete repo entity
    | .beanie => AsyncBeanieRepository.delete repo entity
  | .deleteMany entities =>
    match backend with
    | .sqlalchemy => AsyncSQLAlchemyRepository.deleteMany repo entities
    | .beanie => AsyncBeanieRepository.deleteMany repo entities

/-- The repository factories of `make_uow`, for the session. That of Beanie does not use it. -/
def repoFactory (backend : Backend) (session : Bool) (mapper : AbstractMapper PK) : Repository PK :=
  match backend with
  | .sqlalchemy => { mapper, session }
  | .beanie => { mapper, session := false }

/-- The block of a unit of work: calls of its repositories, after which it may raise. -/
structure Block (PK V : Type) where
  calls : List (AbstractMapper PK × RepositoryCall PK V)
  raises : Option PyException := none

/-- What a block does, on repositories that are given the session or not. -/
def body (backend : Backend) (factory : AbstractMapper PK → Repository PK) (block : Block PK V) :
    Db PK V Unit := do
  let _ ← block.calls.mapM fun call => perform backend (factory call.1) call.2
  match block.raises with
  | some e => throw e
  | none => pure ()

/-- `_begin`: a new session, in whose transaction no command has been sent. -/
def start (w : UowWorld PK V) : UowWorld PK V :=
  { w with draft := none, memory := { w.memory with identityMap := [] } }

def commit (w : UowWorld PK V) : UowWorld PK V :=
  { w with committed := w.draft.getD w.committed, draft := none }

def rollback (w : UowWorld PK V) : UowWorld PK V := { w with draft := none }

/-- `async with uow:` -/
def asyncWith (backend : Backend) (block : Block PK V) (w : UowWorld PK V) :
    Except PyException Unit × UowWorld PK V :=
  match (body backend (repoFactory backend true) block).outcome (start w) with
  | (.ok (), w') => (.ok (), commit w')
  | (.error e, w') => (.error e, rollback w')

/-- What the calls of a block do to the store itself, one after the other. -/
def effect (backend : Backend) (block : Block PK V) (w : UowWorld PK V) :
    Except PyException Unit × EntityStore PK V :=
  let outcome := (body backend (fun mapper => { mapper, session := false }) block).outcome (start w)
  (outcome.1, outcome.2.committed)

/-- A block that raises leaves the store as it was, and one that does not has its effect. -/
structure AllOrNothing (backend : Backend) (block : Block PK V) (w : UowWorld PK V) : Prop where
  raised : ∀ e, (asyncWith backend block w).1 = .error e →
    (asyncWith backend block w).2.committed = w.committed
  returned : (asyncWith backend block w).1 = .ok () →
    (asyncWith backend block w).2.committed = (effect backend block w).2

/-! ## Commands with the session, and without

The operations are the same programs with the session and without: a relation between worlds that
single commands keep, they keep. -/

open Db Lasting

section

variable {R : UowWorld PK V → UowWorld PK V → Prop} {session session' : Bool}
  (hcommand : ∀ {α : Type} (f : EntityStore PK V → Except PyException (α × EntityStore PK V)),
    Similar R (command session f) (command session' f))
  (hmemory : ∀ {α : Type} (f : OrmMemory PK V → α × OrmMemory PK V),
    Similar R (withMemory f) (withMemory f))
include hmemory

omit [DecidableEq PK] in
theorem similar_object (ref : ℕ) : Similar R (object ref : Db PK V _) (object ref) := by
  refine (hmemory _).bind fun found => ?_
  cases found with
  | none => exact .throw _
  | some o => exact .pure o

omit [DecidableEq PK] in
theorem similar_syncObject (mapper : AbstractMapper PK) (now : Instant) (entity : DomainModel PK V)
    (ref : ℕ) :
    Similar R (syncObject mapper now entity ref) (syncObject mapper now entity ref) := by
  refine (similar_object hmemory ref).bind fun o => ?_
  cases mapper.syncToOrm now entity o with
  | ok o' => exact (hmemory _).bind fun _ => .pure o'
  | error e => exact .throw e

include hcommand

variable (mapper : AbstractMapper PK)

namespace SA

open AsyncSQLAlchemyRepository

theorem similar_get (pk : PK) :
    Similar R (get ⟨mapper, session⟩ pk : Db PK V _) (get ⟨mapper, session'⟩ pk) := by
  refine (hmemory _).bind fun known => ?_
  cases known with
  | some ref => exact .pure _
  | none =>
    refine (hcommand _).bind fun row => ?_
    cases row with
    | some row => exact (hmemory _).bind fun _ => .pure _
    | none => exact .pure _

theorem similar_tracked (entity : DomainModel PK V) (raw : ℕ) :
    Similar R (tracked ⟨mapper, session⟩ entity raw) (tracked ⟨mapper, session'⟩ entity raw) := by
  refine .bind ((hmemory _).bind fun inSession => ?_) fun found => ?_
  · cases inSession with
    | true => exact .pure _
    | false =>
      cases entity.pk with
      | some pk => exact similar_get hcommand hmemory mapper pk
      | none => exact .pure _
  · cases found with
    | some ref => exact .pure ref
    | none => exact .throw _

theorem similar_insert (entity : DomainModel PK V) (drawn : Drawn PK) :
    Similar R (insert ⟨mapper, session⟩ entity drawn) (insert ⟨mapper, session'⟩ entity drawn) :=
  (hmemory _).bind fun _ => (hcommand _).bind fun _ => .pure _

theorem similar_save (entity : DomainModel PK V) (drawn : Drawn PK) :
    Similar R (save ⟨mapper, session⟩ entity drawn) (save ⟨mapper, session'⟩ entity drawn) := by
  unfold save
  cases entity.rawOrm with
  | none => exact similar_insert hcommand hmemory mapper entity drawn
  | some raw =>
    exact (similar_tracked hcommand hmemory mapper entity raw).bind fun ref =>
      (similar_syncObject hmemory mapper _ entity ref).bind fun _ =>
        (hcommand _).bind fun _ => .pure _

theorem similar_saveMany (entities : List (DomainModel PK V × Drawn PK)) :
    Similar R (saveMany ⟨mapper, session⟩ entities) (saveMany ⟨mapper, session'⟩ entities) := by
  refine .bind (.mapM fun e _ => similar_insert hcommand hmemory mapper e.1 e.2) fun inserted =>
    .bind (.mapM fun e _ => ?_) fun synced => .bind (.mapM fun o _ => hcommand _) fun _ =>
      .bind (.mapM fun e _ => ?_) fun updated => .pure _
  · exact (similar_tracked hcommand hmemory mapper e.1 e.2.1).bind fun ref =>
      similar_syncObject hmemory mapper _ e.1 ref
  · exact (similar_object hmemory e.2.1).bind fun _ => .pure _

theorem similar_delete (entity : DomainModel PK V) :
    Similar R (delete ⟨mapper, session⟩ entity) (delete ⟨mapper, session'⟩ entity) := by
  unfold delete
  cases entity.rawOrm with
  | none => exact .throw _
  | some raw =>
    exact (similar_object hmemory raw).bind fun _ => (hmemory _).bind fun _ => hcommand _

theorem similar_deleteMany (entities : List (DomainModel PK V)) :
    Similar R (deleteMany ⟨mapper, session⟩ entities) (deleteMany ⟨mapper, session'⟩ entities) := by
  unfold deleteMany
  split_ifs
  · exact .pure ()
  · exact .throw _
  · exact (hcommand _).bind fun _ => hmemory _

end SA

namespace Beanie

open AsyncBeanieRepository

theorem similar_insert (entity : DomainModel PK V) (drawn : Drawn PK) :
    Similar R (insert ⟨mapper, session⟩ entity drawn) (insert ⟨mapper, session'⟩ entity drawn) :=
  (hmemory _).bind fun _ => (hcommand _).bind fun _ => .pure _

theorem similar_update (entity : DomainModel PK V) (ref : ℕ) (drawn : Drawn PK) :
    Similar R (update ⟨mapper, session⟩ entity ref drawn)
      (update ⟨mapper, session'⟩ entity ref drawn) :=
  (similar_syncObject hmemory mapper _ entity ref).bind fun _ => (hcommand _).bind fun _ => .pure _

theorem similar_save (entity : DomainModel PK V) (drawn : Drawn PK) :
    Similar R (save ⟨mapper, session⟩ entity drawn) (save ⟨mapper, session'⟩ entity drawn) := by
  unfold save
  cases entity.rawOrm with
  | none => exact similar_insert hcommand hmemory mapper entity drawn
  | some raw => exact similar_update hcommand hmemory mapper entity raw drawn

theorem similar_saveMany (entities : List (DomainModel PK V × Drawn PK)) :
    Similar R (saveMany ⟨mapper, session⟩ entities) (saveMany ⟨mapper, session'⟩ entities) :=
  .bind (.mapM fun e _ => similar_insert hcommand hmemory mapper e.1 e.2) fun _ =>
    .bind (.mapM fun e _ => similar_update hcommand hmemory mapper e.1 e.2.1 e.2.2) fun _ => .pure _

theorem similar_delete (entity : DomainModel PK V) :
    Similar R (delete ⟨mapper, session⟩ entity) (delete ⟨mapper, session'⟩ entity) := by
  unfold delete
  cases entity.rawOrm with
  | none => exact .throw _
  | some raw => exact (similar_object hmemory raw).bind fun _ => hcommand _

omit hmemory in
theorem similar_deleteMany (entities : List (DomainModel PK V)) :
    Similar R (deleteMany ⟨mapper, session⟩ entities) (deleteMany ⟨mapper, session'⟩ entities) := by
  unfold deleteMany
  split_ifs
  · exact .pure ()
  · exact .throw _
  · exact hcommand _

end Beanie

theorem similar_perform (backend : Backend) (call : RepositoryCall PK V) :
    Similar R (perform backend ⟨mapper, session⟩ call)
      (perform backend ⟨mapper, session'⟩ call) := by
  cases call with
  | save entity drawn =>
    cases backend with
    | sqlalchemy => exact (SA.similar_save hcommand hmemory mapper _ _).bind fun _ => .pure _
    | beanie => exact (Beanie.similar_save hcommand hmemory mapper _ _).bind fun _ => .pure _
  | saveMany entities =>
    cases backend with
    | sqlalchemy => exact (SA.similar_saveMany hcommand hmemory mapper _).bind fun _ => .pure _
    | beanie => exact (Beanie.similar_saveMany hcommand hmemory mapper _).bind fun _ => .pure _
  | delete entity =>
    cases backend with
    | sqlalchemy => exact SA.similar_delete hcommand hmemory mapper _
    | beanie => exact Beanie.similar_delete hcommand hmemory mapper _
  | deleteMany entities =>
    cases backend with
    | sqlalchemy => exact SA.similar_deleteMany hcommand hmemory mapper _
    | beanie => exact Beanie.similar_deleteMany hcommand mapper _

theorem similar_body (backend : Backend) (block : Block PK V) :
    Similar R (body backend (fun mapper => ⟨mapper, session⟩) block)
      (body backend (fun mapper => ⟨mapper, session'⟩) block) := by
  refine .bind (.mapM fun call _ => similar_perform hcommand hmemory call.1 backend call.2)
    fun _ => ?_
  cases block.raises with
  | some e => exact .throw e
  | none => exact .pure ()

end

/-! ## All or nothing -/

section

omit [DecidableEq PK]

/-- The transaction of the first world sees the store of the second, over the store `base`. -/
structure Mirrors (base : EntityStore PK V) (w w' : UowWorld PK V) : Prop where
  committed : w.committed = base
  view : w.view true = w'.committed
  memory : w.memory = w'.memory

/-- The worlds are the same, and nothing has been sent in the transaction. -/
structure Idle (w w' : UowWorld PK V) : Prop where
  eq : w = w'
  draft : w'.draft = none

variable {base : EntityStore PK V} {α : Type}

/-- **A command with the session does to the transaction what it would do to the store.** -/
theorem mirrors_command (f : EntityStore PK V → Except PyException (α × EntityStore PK V)) :
    Similar (Mirrors base) (command true f) (command false f) := by
  intro w w' h
  have hview : w'.view false = w.view true := h.view.symm
  unfold outcome command
  rw [hview]
  cases f (w.view true) with
  | error e => exact ⟨rfl, h⟩
  | ok r => exact ⟨rfl, ⟨h.committed, rfl, h.memory⟩⟩

theorem mirrors_withMemory (f : OrmMemory PK V → α × OrmMemory PK V) :
    Similar (Mirrors base) (withMemory f) (withMemory f) := by
  intro w w' h
  unfold outcome withMemory
  rw [h.memory]
  exact ⟨rfl, ⟨h.committed, h.view, rfl⟩⟩

theorem idle_command (f : EntityStore PK V → Except PyException (α × EntityStore PK V)) :
    Similar Idle (command false f) (command false f) := by
  rintro w w' ⟨rfl, hdraft⟩
  refine ⟨rfl, rfl, ?_⟩
  unfold outcome command
  cases f (w.view false) <;> exact hdraft

theorem idle_withMemory (f : OrmMemory PK V → α × OrmMemory PK V) :
    Similar Idle (withMemory f) (withMemory f) := by
  rintro w w' ⟨rfl, hdraft⟩
  exact ⟨rfl, rfl, hdraft⟩

end

theorem allOrNothing_sqlalchemy (block : Block PK V) (w : UowWorld PK V) :
    AllOrNothing .sqlalchemy block w := by
  have hstart : Mirrors w.committed (start w) (start w) := ⟨rfl, rfl, rfl⟩
  have hbody := similar_body mirrors_command mirrors_withMemory .sqlalchemy block _ _ hstart
  have hasync : asyncWith .sqlalchemy block w = match (body .sqlalchemy
      (fun mapper => ⟨mapper, true⟩) block).outcome (start w) with
    | (.ok (), w') => (.ok (), commit w')
    | (.error e, w') => (.error e, rollback w') := rfl
  revert hbody hasync
  obtain ⟨r, w'⟩ := (body .sqlalchemy (fun mapper => ⟨mapper, true⟩) block).outcome (start w)
  rintro ⟨-, hmirrors⟩ hasync
  constructor
  · intro e he
    rw [hasync] at he ⊢
    cases r with
    | ok u => cases he
    | error e' => exact hmirrors.committed
  · intro he
    rw [hasync] at he ⊢
    cases r with
    | ok u => exact hmirrors.view
    | error e' => cases he

/-- A block of Beanie does to the store what its calls do, whether it raises or not. -/
theorem asyncWith_beanie (block : Block PK V) (w : UowWorld PK V) :
    (asyncWith .beanie block w).1 = (effect .beanie block w).1 ∧
      (asyncWith .beanie block w).2.committed = (effect .beanie block w).2 := by
  have hbody := similar_body idle_command idle_withMemory .beanie block _ _
    (⟨rfl, rfl⟩ : Idle (start w) (start w))
  unfold effect asyncWith
  have hfactory : repoFactory .beanie true = fun mapper : AbstractMapper PK =>
      ⟨mapper, false⟩ := rfl
  rw [hfactory]
  revert hbody
  obtain ⟨r, w'⟩ := (body .beanie (fun mapper => ⟨mapper, false⟩) block).outcome (start w)
  rintro ⟨-, -, hdraft⟩
  cases r with
  | ok u =>
    refine ⟨rfl, ?_⟩
    change w'.draft.getD w'.committed = w'.committed
    rw [show w'.draft = none from hdraft, Option.getD_none]
  | error e => exact ⟨rfl, rfl⟩

/-- **A unit of work of SQLAlchemy is all or nothing; one of Beanie is iff its block does not raise,
or the calls that it has made leave the store as it was.** -/
theorem all_or_nothing_iff (backend : Backend) (block : Block PK V) (w : UowWorld PK V) :
    AllOrNothing backend block w ↔ backend = .sqlalchemy ∨
      (effect backend block w).1 = .ok () ∨ (effect backend block w).2 = w.committed := by
  cases backend with
  | sqlalchemy => exact iff_of_true (allOrNothing_sqlalchemy block w) (.inl rfl)
  | beanie =>
    obtain ⟨hresult, hstore⟩ := asyncWith_beanie block w
    constructor
    · intro h
      refine .inr ?_
      cases hr : (effect .beanie block w).1 with
      | ok u => exact .inl rfl
      | error e => exact .inr (hstore.symm.trans (h.raised e (hresult.trans hr)))
    · rintro (h | h | h)
      · cases h
      · refine ⟨fun e he => ?_, fun _ => hstore⟩
        rw [hresult, h] at he
        cases he
      · exact ⟨fun _ _ => hstore.trans h, fun _ => hstore⟩

def saveNew (raises : Option PyException) : Block ℕ String :=
  { calls := [(⟨"User", true, toString⟩, .save { body := "Edo" } ⟨0, 1⟩)], raises }

/-- **A block of Beanie that raises leaves what it has saved.** -/
theorem beanie_block_not_undone : ¬ ∀ (backend : Backend) (block : Block ℕ String)
    (w : UowWorld ℕ String), AllOrNothing backend block w := by
  intro h
  have hraised := (h .beanie (saveNew (some (.valueError "boom"))) { committed := fun _ => none }
    ).raised _ rfl
  have hsaved := congrFun hraised 1
  cases hsaved

end UnitOfWork

end Varco
