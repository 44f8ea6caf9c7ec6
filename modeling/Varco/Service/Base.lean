import Varco.Foundations.Atomic
import Varco.Jwt.Token
import Varco.Query.Params

/-!
# Services over a repository

`AsyncService` with the mixins `TenantAwareService`, `SoftDeleteService` and `BulkServiceMixin`,
composed in any order: `mro` lists the mixins of a class before `AsyncService`, and a hook that
chains through `super()` is a recursion over what is left of it. An operation is atomic, as its unit
of work makes it: where it raises, nothing has changed. The domain class, the DTOs and the assembler
are a parameter, and so is how a repository answers queries. Validation hooks are empty.
-/

namespace Varco

namespace Auth

/-- `ctx.metadata.get("tenant_id")`, a string, unless it is absent or empty. -/
def AuthContext.tenantId (ctx : AuthContext) : Option String :=
  match ctx.metadata.get? "tenant_id" with
  | some (.str tid) => if tid = "" then none else some tid
  | _ => none

end Auth

namespace AsyncService

/-! ## Classes -/

/-- The mixins of a class. -/
inductive Mixin
  | tenantAware
  | softDelete
  | bulk
  deriving DecidableEq

/-- A service class: its mixins in the order of the MRO, `_tenant_field` and `_soft_delete_field`.
-/
structure ServiceClass where
  mro : List Mixin
  tenantField : String := "tenant_id"
  softDeleteField : String := "deleted_at"

/-- A domain model: the two fields that mixins know of, and the others. -/
structure Entity (V : Type) where
  tenantId : Option String := none
  deletedAt : Option ℤ := none
  body : V
  deriving DecidableEq

/-- The assembler. -/
structure Assembler (PK V C R U : Type) where
  toDomain : C → Entity V
  toReadDto : PK → Entity V → R
  applyUpdate : PK → Entity V → U → Entity V

/-- What a call raises. -/
inductive ServiceError (PK : Type)
  /-- `ServiceNotFoundError` -/
  | notFound (pk : PK)
  /-- `ServiceAuthorizationError` -/
  | authorization (operation : String)
  /-- `AttributeError`: the class has no such method. -/
  | attribute (name : String)
  /-- The repository refuses a query. -/
  | query (e : PyException)
  deriving DecidableEq

/-- `AbstractAuthorizer.authorize`, with the entity of the resource, if there is one. -/
abbrev Authorizer (PK V : Type) : Type :=
  Auth.AuthContext → Action → Option (PK × Entity V) → Except (ServiceError PK) Unit

def permitAll {PK V : Type} : Authorizer PK V := fun _ _ _ => .ok ()

/-- How a repository answers queries, over the rows in the order of their insertion: `page` is what
sorting, limit and offset make of the rows that match. -/
structure Repository (PK V : Type) (cls : ServiceClass) where
  holds : TransformerNode → PK → Entity V → Bool
  page : QueryParams → List (PK × Entity V) → List (PK × Entity V)
  refuses : QueryParams → Option PyException
  holds_and : ∀ left right pk e,
    holds (.and left right) pk e = (holds left pk e && holds right pk e)
  holds_tenant : ∀ tid pk e,
    holds (.comparison { field := cls.tenantField, op := .equal, value := .scalar (.str tid) }) pk
      e = decide (e.tenantId = some tid)
  holds_deleted : ∀ pk e,
    holds (.comparison { field := cls.softDeleteField, op := .isNull }) pk e = e.deletedAt.isNone
  page_sub : ∀ params (l : List (PK × Entity V)), page params l ⊆ l
  page_all : ∀ (params : QueryParams) (l : List (PK × Entity V)), params.limit = none →
    params.offset = none → l ⊆ page params l

/-! ## The world of a service -/

/-- `EntityCreatedEvent`, `EntityUpdatedEvent` and `EntityDeletedEvent`. -/
inductive EntityEvent (PK R : Type)
  | created (pk : PK) (tenantId : Option Json) (payload : R)
  | updated (pk : PK) (tenantId : Option Json) (payload : R)
  | deleted (pk : PK) (tenantId : Option Json)

/-- The hooks that a subclass may override, and the events. -/
inductive Trace (PK R : Type)
  | preCheck
  | asyncCheckEntity (pk : PK)
  | published (event : EntityEvent PK R)
  | afterCreate (pk : PK)
  | afterUpdate (pk : PK)
  | afterDelete (pk : PK)

/-- The rows of the repository, and what has been run and published. -/
structure World (PK V R : Type) where
  rows : Dict PK (Entity V) := .empty
  trace : List (Trace PK R) := []

/-- A service: its class with what is injected. -/
structure Service (PK V C R U : Type) where
  cls : ServiceClass
  assembler : Assembler PK V C R U
  authorizer : Authorizer PK V
  repository : Repository PK V cls

section

variable {PK V C R U α : Type} [DecidableEq PK]

abbrev ServiceM (PK V R α : Type) : Type := Atomic (World PK V R) (ServiceError PK) α

def note (t : Trace PK R) : ServiceM PK V R PUnit :=
  modify fun w => { w with trace := w.trace ++ [t] }

def modifyRows (f : Dict PK (Entity V) → Dict PK (Entity V)) : ServiceM PK V R PUnit :=
  modify fun w => { w with rows := f w.rows }

/-- `repo.find_by_id` -/
def findById (pk : PK) : ServiceM PK V R (Option (Entity V)) := fun w => .ok (w.rows.get? pk, w)

/-- `repo.save` -/
def save (pk : PK) (entity : Entity V) : ServiceM PK V R PUnit := modifyRows (·.set pk entity)

/-! ## Hooks -/

def requireTenant (PK : Type) (ctx : Auth.AuthContext) : Except (ServiceError PK) String :=
  match ctx.tenantId with
  | some tid => .ok tid
  | none => .error (.authorization "access")

def scopedParams (PK : Type) (cls : ServiceClass) (ctx : Auth.AuthContext) :
    List Mixin → QueryParams → Except (ServiceError PK) QueryParams
  | [], params => .ok params
  | .tenantAware :: mro, params => do
    let tid ← requireTenant PK ctx
    let scopedNode := (QueryBuilder.eq cls.tenantField (.str tid)).and ⟨params.node⟩
    scopedParams PK cls ctx mro { params with node := scopedNode.node }
  | .softDelete :: mro, params =>
    let scopedNode := (QueryBuilder.isNull cls.softDeleteField).and ⟨params.node⟩
    scopedParams PK cls ctx mro { params with node := scopedNode.node }
  | .bulk :: mro, params => scopedParams PK cls ctx mro params

def checkEntity (ctx : Auth.AuthContext) (pk : PK) (entity : Entity V) :
    List Mixin → Except (ServiceError PK) Unit
  | [] => .ok ()
  | .tenantAware :: mro => do
    let tid ← requireTenant PK ctx
    if entity.tenantId ≠ some tid then .error (.notFound pk) else checkEntity ctx pk entity mro
  | .softDelete :: mro =>
    if entity.deletedAt.isSome then .error (.notFound pk) else checkEntity ctx pk entity mro
  | .bulk :: mro => checkEntity ctx pk entity mro

def prepareForCreate (PK : Type) (ctx : Auth.AuthContext) :
    List Mixin → Entity V → Except (ServiceError PK) (Entity V)
  | [], entity => .ok entity
  | .tenantAware :: mro, entity => do
    let tid ← requireTenant PK ctx
    prepareForCreate PK ctx mro { entity with tenantId := some tid }
  | .softDelete :: mro, entity => prepareForCreate PK ctx mro { entity with deletedAt := none }
  | .bulk :: mro, entity => prepareForCreate PK ctx mro entity

/-- `_pre_check`, down the MRO. -/
def preCheckChain (PK : Type) (ctx : Auth.AuthContext) : List Mixin → Except (ServiceError PK) Unit
  | [] => .ok ()
  | .tenantAware :: mro => do
    let _ ← requireTenant PK ctx
    preCheckChain PK ctx mro
  | .softDelete :: mro | .bulk :: mro => preCheckChain PK ctx mro

variable (s : Service PK V C R U)

namespace Service

def preCheck (ctx : Auth.AuthContext) : ServiceM PK V R PUnit := do
  note .preCheck
  .lift (preCheckChain PK ctx s.cls.mro)

/-- `_async_check_entity`, which is empty. -/
def asyncCheckEntity (pk : PK) : ServiceM PK V R PUnit := note (.asyncCheckEntity pk)

/-- `find_by_id`, the test for `None`, and `_check_entity`. -/
def findChecked (pk : PK) (ctx : Auth.AuthContext) : ServiceM PK V R (Entity V) := do
  match ← findById pk with
  | none => .lift (.error (.notFound pk))
  | some entity =>
    .lift (checkEntity ctx pk entity s.cls.mro)
    return entity

/-- `_authorizer.authorize` -/
def authorize (ctx : Auth.AuthContext) (action : Action) (resource : Option (PK × Entity V)) :
    ServiceM PK V R PUnit := .lift (s.authorizer ctx action resource)

/-- `_publish_domain_event` -/
def publish (event : EntityEvent PK R) : ServiceM PK V R PUnit := note (.published event)

def matching (params : QueryParams) (rows : Dict PK (Entity V)) : List (PK × Entity V) :=
  rows.entries.filter fun row => params.node.all (s.repository.holds · row.1 row.2)

/-- `repo.find_by_query`, and `repo.stream_by_query`. -/
def findByQuery (params : QueryParams) : ServiceM PK V R (List (PK × Entity V)) := fun w =>
  match s.repository.refuses params with
  | some e => .error (.query e)
  | none => .ok (s.repository.page params (s.matching params w.rows), w)

/-- `repo.count` -/
def countRows (params : QueryParams) : ServiceM PK V R ℕ := fun w =>
  match s.repository.refuses params with
  | some e => .error (.query e)
  | none => .ok ((s.matching params w.rows).length, w)

/-! ## `AsyncService` -/

def get (pk : PK) (ctx : Auth.AuthContext) : ServiceM PK V R R := do
  s.preCheck ctx
  let entity ← s.findChecked pk ctx
  asyncCheckEntity pk
  s.authorize ctx .read (some (pk, entity))
  return s.assembler.toReadDto pk entity

def list (params : QueryParams) (ctx : Auth.AuthContext) : ServiceM PK V R (List R) := do
  s.authorize ctx .list none
  let narrowed ← .lift (scopedParams PK s.cls ctx s.cls.mro params)
  let entities ← s.findByQuery narrowed
  return entities.map fun row => s.assembler.toReadDto row.1 row.2

def count (params : QueryParams) (ctx : Auth.AuthContext) : ServiceM PK V R ℕ := do
  s.authorize ctx .list none
  let narrowed ← .lift (scopedParams PK s.cls ctx s.cls.mro params)
  s.countRows narrowed

/-- `stream`, consumed to its end. -/
def stream (params : QueryParams) (ctx : Auth.AuthContext) : ServiceM PK V R (List R) := do
  s.authorize ctx .list none
  let narrowed ← .lift (scopedParams PK s.cls ctx s.cls.mro params)
  let entities ← s.findByQuery narrowed
  return entities.map fun row => s.assembler.toReadDto row.1 row.2

/-- `ctx.metadata.get("tenant_id")` of an event. -/
def eventTenant (ctx : Auth.AuthContext) : Option Json := ctx.metadata.get? "tenant_id"

/-- `create`, where the repository assigns the primary key `pk`. -/
def create (dto : C) (pk : PK) (ctx : Auth.AuthContext) : ServiceM PK V R R := do
  s.preCheck ctx
  s.authorize ctx .create none
  let entity ← .lift (prepareForCreate PK ctx s.cls.mro (s.assembler.toDomain dto))
  save pk entity
  let readDto := s.assembler.toReadDto pk entity
  publish (.created pk (eventTenant ctx) readDto)
  note (.afterCreate pk)
  return readDto

/-- `update`, and `patch`. -/
def update (pk : PK) (dto : U) (ctx : Auth.AuthContext) : ServiceM PK V R R := do
  s.preCheck ctx
  let entity ← s.findChecked pk ctx
  asyncCheckEntity pk
  s.authorize ctx .update (some (pk, entity))
  let updated := s.assembler.applyUpdate pk entity dto
  save pk updated
  let readDto := s.assembler.toReadDto pk updated
  publish (.updated pk (eventTenant ctx) readDto)
  note (.afterUpdate pk)
  return readDto

def afterDeletion (ctx : Auth.AuthContext) (pk : PK) : ServiceM PK V R PUnit := do
  publish (.deleted pk (eventTenant ctx))
  note (.afterDelete pk)

/-- `AsyncService.delete` -/
def baseDelete (pk : PK) (ctx : Auth.AuthContext) : ServiceM PK V R PUnit := do
  s.preCheck ctx
  let entity ← s.findChecked pk ctx
  asyncCheckEntity pk
  s.authorize ctx .delete (some (pk, entity))
  modifyRows (·.erase pk)
  afterDeletion ctx pk

/-! ## `SoftDeleteService` -/

/-- `SoftDeleteService.delete`, at a time. -/
def softDelete (pk : PK) (now : ℤ) (ctx : Auth.AuthContext) : ServiceM PK V R PUnit := do
  let entity ← s.findChecked pk ctx
  s.authorize ctx .delete (some (pk, entity))
  save pk { entity with deletedAt := some now }

/-- `delete`, as the class inherits it. -/
def delete (pk : PK) (now : ℤ) (ctx : Auth.AuthContext) : ServiceM PK V R PUnit :=
  if .softDelete ∈ s.cls.mro then s.softDelete pk now ctx else s.baseDelete pk ctx

/-- `SoftDeleteService.restore` -/
def softRestore (pk : PK) (ctx : Auth.AuthContext) : ServiceM PK V R R := do
  match ← findById pk with
  | none => .lift (.error (.notFound pk))
  | some entity =>
    s.authorize ctx .update (some (pk, entity))
    let restored := { entity with deletedAt := none }
    save pk restored
    return s.assembler.toReadDto pk restored

def restore (pk : PK) (ctx : Auth.AuthContext) : ServiceM PK V R R :=
  if .softDelete ∈ s.cls.mro then s.softRestore pk ctx
  else .lift (.error (.attribute "restore"))

/-! ## `BulkServiceMixin` -/

def prepareDto (ctx : Auth.AuthContext) (dto : C × PK) : ServiceM PK V R (PK × Entity V) := do
  let entity ← .lift (prepareForCreate PK ctx s.cls.mro (s.assembler.toDomain dto.1))
  return (dto.2, entity)

/-- `BulkServiceMixin.create_many`, where the repository assigns the primary keys. -/
def bulkCreateMany (dtos : List (C × PK)) (ctx : Auth.AuthContext) : ServiceM PK V R (List R) := do
  if dtos.isEmpty then return []
  s.preCheck ctx
  s.authorize ctx .create none
  let entities ← dtos.mapM (s.prepareDto ctx)
  modifyRows fun rows => entities.foldl (fun rows row => rows.set row.1 row.2) rows
  let _ ← entities.mapM fun row => do
    publish (.created row.1 (eventTenant ctx) (s.assembler.toReadDto row.1 row.2))
    note (.afterCreate row.1)
  return entities.map fun row => s.assembler.toReadDto row.1 row.2

def findDeletable (ctx : Auth.AuthContext) (pk : PK) : ServiceM PK V R PUnit := do
  let entity ← s.findChecked pk ctx
  asyncCheckEntity pk
  s.authorize ctx .delete (some (pk, entity))

/-- `BulkServiceMixin.delete_many` -/
def bulkDeleteMany (pks : List PK) (ctx : Auth.AuthContext) : ServiceM PK V R PUnit := do
  if pks.isEmpty then return
  s.preCheck ctx
  let _ ← pks.mapM (s.findDeletable ctx)
  modifyRows fun rows => pks.foldl (fun rows pk => rows.erase pk) rows
  let _ ← pks.mapM (afterDeletion ctx)

def createMany (dtos : List (C × PK)) (ctx : Auth.AuthContext) : ServiceM PK V R (List R) :=
  if .bulk ∈ s.cls.mro then s.bulkCreateMany dtos ctx
  else .lift (.error (.attribute "create_many"))

def deleteMany (pks : List PK) (ctx : Auth.AuthContext) : ServiceM PK V R PUnit :=
  if .bulk ∈ s.cls.mro then s.bulkDeleteMany pks ctx
  else .lift (.error (.attribute "delete_many"))

end Service

/-- A call of the interface; the keys that the repository assigns and the time belong to it. -/
inductive Call (PK C U : Type)
  | get (pk : PK)
  | list (params : QueryParams)
  | count (params : QueryParams)
  | stream (params : QueryParams)
  | create (dto : C) (pk : PK)
  | createMany (dtos : List (C × PK))
  | update (pk : PK) (dto : U)
  | patch (pk : PK) (dto : U)
  | delete (pk : PK) (now : ℤ)
  | deleteMany (pks : List PK)
  | restore (pk : PK)

/-- What a call returns. -/
inductive Reply (R : Type)
  | dto (dto : R)
  | dtos (dtos : List R)
  | count (n : ℕ)
  | none
  deriving DecidableEq

def Service.perform (ctx : Auth.AuthContext) : Call PK C U → ServiceM PK V R (Reply R)
  | .get pk => return .dto (← s.get pk ctx)
  | .list params => return .dtos (← s.list params ctx)
  | .count params => return .count (← s.count params ctx)
  | .stream params => return .dtos (← s.stream params ctx)
  | .create dto pk => return .dto (← s.create dto pk ctx)
  | .createMany dtos => return .dtos (← s.createMany dtos ctx)
  | .update pk dto => return .dto (← s.update pk dto ctx)
  | .patch pk dto => return .dto (← s.update pk dto ctx)
  | .delete pk now => do
    s.delete pk now ctx
    return .none
  | .deleteMany pks => do
    s.deleteMany pks ctx
    return .none
  | .restore pk => return .dto (← s.restore pk ctx)

def Call.inserted : Call PK C U → List PK
  | .create _ pk => [pk]
  | .createMany dtos => dtos.map Prod.snd
  | _ => []

def Call.Fresh (call : Call PK C U) (rows : Dict PK (Entity V)) : Prop :=
  call.inserted.Nodup ∧ ∀ pk ∈ call.inserted, rows.get? pk = none

/-- What a caller gets of a call: what it returns, or what it raises. -/
abbrev Answer (PK R : Type) : Type := Except (ServiceError PK) (Reply R)

/-- A call of a caller, with the answer to it. -/
structure Event (PK C R U : Type) where
  ctx : Auth.AuthContext
  call : Call PK C U
  answer : Answer PK R

/-- The caller makes its call, and has the answer. -/
inductive Service.Step : World PK V R → Event PK C R U → World PK V R → Prop
  | returned {w w' : World PK V R} {ctx : Auth.AuthContext} {call : Call PK C U} {reply : Reply R}
      (hfresh : call.Fresh w.rows) (h : s.perform ctx call w = .ok (reply, w')) :
      Step w ⟨ctx, call, .ok reply⟩ w'
  | raised {w : World PK V R} {ctx : Auth.AuthContext} {call : Call PK C U} {e : ServiceError PK}
      (hfresh : call.Fresh w.rows) (h : s.perform ctx call w = .error e) :
      Step w ⟨ctx, call, .error e⟩ w

end

end AsyncService

end Varco
