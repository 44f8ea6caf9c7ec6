import Mathlib.Data.Finset.Basic
import Varco.Foundations.Tasks
import Varco.Tenancy.Catalog

/-!
# The control service and its coordinator

The authority's `TenantControlService` with a `TenantReadinessCoordinator`, and the services of the
workers, over one catalog. A call is suspended at its calls to the catalog, the provisioner and the
bus (and, in `deprovision`, at the supervisor and the pool), each of which is one step and may raise
instead of taking effect. A command to provision a tenant is delivered only after it was issued, and
then any number of times; a `TenantNodeReady` may come from any node at any time. The coordinator's
watchdog only logs, so there is none.
-/

namespace Varco

namespace TenantControlService

/-- The coordinator's `expected_stores`, which it refuses to be empty; whether the authority has a
`supervisor` and a `pool`. -/
structure Config where
  expectedStores : Finset String
  nonempty : expectedStores.Nonempty
  supervisor : Bool := false
  pool : Bool := false

def Config.oneStore : Config where
  expectedStores := {"orders"}
  nonempty := ⟨"orders", Finset.mem_singleton_self _⟩

/-- The rows of the catalog, and the coordinator's `_seen`; the commands to provision that were
issued, the tenants that workers' provisioners were run for, and those that `mark_active` has
completed for. `barred` are the tenants whose status a `deprovision` has set with no command issued
since, and `gone` those of them whose `deprovision` has returned. -/
structure State where
  rows : TenantRows := .empty
  seen : Dict String (Finset String) := .empty
  commands : List String := []
  workerRuns : List String := []
  activations : List String := []
  barred : Finset String := ∅
  gone : Finset String := ∅

/-- A delivered command, at the authority or at a worker; `deprovision`; a delivered
`TenantNodeReady`. -/
inductive Call
  | provision (tenantId : String)
  | provisionWorker (tenantId : String)
  | deprovision (tenantId : String) (confirm : Bool)
  | onNodeReady (tenantId storeId : String)
  deriving DecidableEq

/-- What a call awaits. `issued` is the number of commands for the tenant when its status was set.
-/
inductive Phase
  | idle
  /-- `provision`: `get`, `add`, the provisioner, `update_status`, the bus, and `get`. -/
  | provisionGet (tenantId : String)
  | provisionAdd (tenantId : String)
  | provisionRun (tenantId : String)
  | provisionUpdate (tenantId : String)
  | provisionEmit (tenantId : String)
  | provisionReturn (tenantId : String)
  /-- `_provision_worker`: `get`, the provisioner and the bus. -/
  | workerGet (tenantId : String)
  | workerRun (tenantId : String)
  | workerEmit (tenantId : String)
  /-- `deprovision`: `update_status`, the bus, the supervisor, the pool, the provisioner,
  `update_status` and the bus. -/
  | deprovisionUpdate (tenantId : String)
  | deprovisionEmit (tenantId : String) (issued : ℕ)
  | deprovisionStop (tenantId : String) (issued : ℕ)
  | deprovisionEvict (tenantId : String) (issued : ℕ)
  | deprovisionRun (tenantId : String) (issued : ℕ)
  | deprovisionDelete (tenantId : String) (issued : ℕ)
  | deprovisionLast (tenantId : String) (issued : ℕ)
  /-- `mark_active`, called by `on_node_ready`: `update_status`, `add`, the bus and `get`. -/
  | activateUpdate (tenantId storeId : String)
  | activateAdd (tenantId storeId : String)
  | activateEmit (tenantId storeId : String)
  | activateGet (tenantId storeId : String)
  /-- `on_node_ready` has returned. -/
  | ready (tenantId storeId : String)
  | returned
  | raised (e : Exc)
  deriving DecidableEq

/-- `except TenantNotFoundError`. -/
def notFound : Exc → Bool
  | .error e => e.typeName = "TenantNotFoundError"
  | .cancelled => false

/-- An awaited call ends with its result, unless it raises something else. -/
def ended {α : Type} (fault : Option Exc) (result : Except PyException α) : Except Exc α :=
  match fault, result with
  | some e, _ => .error e
  | none, .error e => .error (.error e)
  | none, .ok a => .ok a

/-- `get`. -/
def getRow (tenantId : String) (rows : TenantRows) : Except PyException TenantDescriptor :=
  match rows.get? tenantId with
  | none => .error (tenantNotFound tenantId)
  | some descriptor => .ok descriptor

/-- A call to the catalog that writes has ended: the call goes on to `p`, with the rows then. -/
def written (fault : Option Exc) (result : Except PyException TenantRows) (s : State) (p : Phase) :
    State × Phase :=
  match ended fault result with
  | .error e => (s, .raised e)
  | .ok rows => ({ s with rows := rows }, p)

/-- A call to the bus, the provisioner, the supervisor or the pool has ended. -/
def called (fault : Option Exc) (s s' : State) (p : Phase) : State × Phase :=
  match fault with
  | some e => (s, .raised e)
  | none => (s', p)

/-! ## The coordinator -/

def State.seenStores (s : State) (tenantId : String) : Finset String :=
  (s.seen.get? tenantId).getD ∅

/-- `on_node_ready` up to its first await. -/
def onNodeReady (cfg : Config) (tenantId storeId : String) (s : State) : State × Phase :=
  let observed := { s with seen := s.seen.set tenantId (s.seenStores tenantId) }
  if storeId ∉ cfg.expectedStores then (observed, .ready tenantId storeId)
  else if storeId ∈ s.seenStores tenantId then (observed, .ready tenantId storeId)
  else
    let seen := insert storeId (s.seenStores tenantId)
    let added := { s with seen := s.seen.set tenantId seen }
    if cfg.expectedStores ⊆ seen then (added, .activateUpdate tenantId storeId)
    else (added, .ready tenantId storeId)

/-! ## The service -/

/-- `provision` has read the row. -/
def provision (tenantId : String) (row : Except Exc TenantDescriptor) : Phase :=
  match row with
  | .error e => if notFound e then .provisionAdd tenantId else .raised e
  | .ok descriptor =>
    if descriptor.status = .active then .returned else .provisionRun tenantId

/-- `_provision_worker` has read the row. -/
def provisionWorker (tenantId : String) (row : Except Exc TenantDescriptor) : Phase :=
  match row with
  | .error e => if notFound e then .workerRun tenantId else .raised e
  | .ok descriptor =>
    if descriptor.status = .deleted ∨ descriptor.status = .deprovisioning then .returned
    else .workerRun tenantId

/-- `deprovision` has written a status. -/
def deprovisioned (tenantId : String) (fault : Option Exc) (result : Except PyException TenantRows)
    (s : State) (p : ℕ → Phase) : State × Phase :=
  match ended fault result with
  | .error e => (s, .raised e)
  | .ok rows =>
    ({ s with rows := rows, barred := insert tenantId s.barred }, p (s.commands.count tenantId))

/-- `deprovision` after the bus and the supervisor. -/
def afterSupervisor (cfg : Config) (tenantId : String) (issued : ℕ) : Phase :=
  if cfg.pool then .deprovisionEvict tenantId issued else .deprovisionRun tenantId issued

/-- `mark_active` has called `update_status`. -/
def markActive (tenantId storeId : String) (fault : Option Exc)
    (result : Except PyException TenantRows) (s : State) : State × Phase :=
  match ended fault result with
  | .error e => (s, if notFound e then .activateAdd tenantId storeId else .raised e)
  | .ok rows => ({ s with rows := rows }, .activateEmit tenantId storeId)

def resume (cfg : Config) (catalog : TenantCatalog) (fault : Option Exc) (s : State) :
    Phase → Option (State × Phase)
  | .provisionGet tenantId => some (s, provision tenantId (ended fault (getRow tenantId s.rows)))
  | .provisionAdd tenantId =>
    some (written fault (catalog.add { tenantId := tenantId, status := .pending } s.rows) s
      (.provisionRun tenantId))
  | .provisionRun tenantId => some (called fault s s (.provisionUpdate tenantId))
  | .provisionUpdate tenantId =>
    some (written fault (catalog.updateStatus tenantId .active s.rows) s (.provisionEmit tenantId))
  | .provisionEmit tenantId => some (called fault s s (.provisionReturn tenantId))
  | .provisionReturn tenantId =>
    match ended fault (getRow tenantId s.rows) with
    | .error e => some (s, .raised e)
    | .ok _ => some (s, .returned)
  | .workerGet tenantId => some (s, provisionWorker tenantId (ended fault (getRow tenantId s.rows)))
  | .workerRun tenantId =>
    some (called fault s { s with workerRuns := s.workerRuns ++ [tenantId] } (.workerEmit tenantId))
  | .workerEmit _ => some (called fault s s .returned)
  | .deprovisionUpdate tenantId =>
    some (deprovisioned tenantId fault (catalog.updateStatus tenantId .deprovisioning s.rows) s
      (.deprovisionEmit tenantId))
  | .deprovisionEmit tenantId issued =>
    some (called fault s s
      (if cfg.supervisor then .deprovisionStop tenantId issued
        else afterSupervisor cfg tenantId issued))
  | .deprovisionStop tenantId issued =>
    some (called fault s s (afterSupervisor cfg tenantId issued))
  | .deprovisionEvict tenantId issued => some (called fault s s (.deprovisionRun tenantId issued))
  | .deprovisionRun tenantId issued => some (called fault s s (.deprovisionDelete tenantId issued))
  | .deprovisionDelete tenantId _ =>
    some (deprovisioned tenantId fault (catalog.updateStatus tenantId .deleted s.rows) s
      (.deprovisionLast tenantId))
  | .deprovisionLast tenantId issued =>
    some (called fault s
      { s with gone :=
          if s.commands.count tenantId = issued then insert tenantId s.gone else s.gone }
      .returned)
  | .activateUpdate tenantId storeId =>
    some (markActive tenantId storeId fault (catalog.updateStatus tenantId .active s.rows) s)
  | .activateAdd tenantId storeId =>
    some (written fault (catalog.add { tenantId := tenantId, status := .active } s.rows) s
      (.activateEmit tenantId storeId))
  | .activateEmit tenantId storeId => some (called fault s s (.activateGet tenantId storeId))
  | .activateGet tenantId storeId =>
    match ended fault (getRow tenantId s.rows) with
    | .error e => some (s, .raised e)
    | .ok _ =>
      some ({ s with activations := s.activations ++ [tenantId] }, .ready tenantId storeId)
  | _ => none

/-- `DestructiveOperationRefused`. -/
def refused (tenantId : String) : Exc :=
  .error ⟨"DestructiveOperationRefused",
    s!"Refusing to deprovision tenant {pyRepr tenantId} without confirm=True."⟩

def begin (cfg : Config) (s : State) : Call → Option (State × Phase)
  | .provision tenantId =>
    if tenantId ∈ s.commands then some (s, .provisionGet tenantId) else none
  | .provisionWorker tenantId =>
    if tenantId ∈ s.commands then some (s, .workerGet tenantId) else none
  | .deprovision tenantId confirm =>
    some (s, if confirm then .deprovisionUpdate tenantId else .raised (refused tenantId))
  | .onNodeReady tenantId storeId => some (onNodeReady cfg tenantId storeId s)

/-- A call is made or goes on, or a command to provision a tenant is issued. -/
inductive Input
  | call (c : Call)
  | resume (fault : Option Exc)
  | command (tenantId : String)
  deriving DecidableEq

/-- A command to provision a tenant: by `request_provision`, or by who calls `provision`. -/
def command (tenantId : String) (s : State) : State :=
  { s with
    commands := s.commands ++ [tenantId]
    barred := s.barred.erase tenantId
    gone := s.gone.erase tenantId }

def next (cfg : Config) (catalog : TenantCatalog) (x : Input) (s : State) (p : Phase) :
    Option (State × Phase) :=
  match x, p with
  | .call c, .idle => begin cfg s c
  | .command tenantId, .idle => some (command tenantId s, .idle)
  | .resume fault, p => resume cfg catalog fault s p
  | _, _ => none

abbrev Callers (ι : Type) : Type := Tasks ι State Phase

def fresh (ι : Type) (rows : TenantRows) : Callers ι := ⟨{ rows := rows }, fun _ => .idle⟩

abbrev Step {ι : Type} [DecidableEq ι] (cfg : Config) (catalog : TenantCatalog) :
    Callers ι → ι × Input → Callers ι → Prop :=
  Tasks.Step (next cfg catalog)

end TenantControlService

end Varco
