import Varco.Encryption.KeyStore
import Varco.Encryption.Registry
import Varco.Foundations.Pool

/-!
# Key managers

`EncryptionKeyManager` of `varco_core.encryption_store`: what it does with a store, as programs
whose commands are the calls of the store and the reads and writes of the attributes of a manager.
What a call draws (the identifier and the bytes of a new key, the randomness of its wrapping, the
time) is an argument.

Any number of managers share one store and one master key. The registries of scopes are objects that
a manager goes on writing to after it has returned them, so a `ScopedEncryptorRegistry` refers to
them by their place in the list of those that its manager has made.
-/

namespace Varco

variable {F : Fernet}

/-! ## Commands -/

/-- The attributes of a manager, and the registries of scopes that it has made. -/
structure ManagerMemory (F : Fernet) where
  cache : Dict (Option String) (FernetFieldEncryptor F) := .empty
  scopedMulti : Dict String ℕ := .empty
  multis : List (MultiKeyEncryptorRegistry (FernetFieldEncryptor F)) := []

/-- What a call of a manager does one at a time. -/
inductive KeyCmd (F : Fernet)
  /-- `store.save(entry)` -/
  | save (entry : EncryptionKeyEntry)
  /-- `store.load_for_tenant(tenant_id)` -/
  | loadForTenant (tenantId : Option String)
  /-- `store.list_tenants()` -/
  | listTenants
  /-- `store.load_for_scope(scope)` -/
  | loadForScope (scope : Option String)
  /-- `store.destroy_scope(scope)` -/
  | destroyScope (scope : String) (now : Instant)
  /-- The attributes of a manager are read. -/
  | self (manager : ℕ)
  /-- The attributes of a manager are written. -/
  | assign (manager : ℕ) (f : ManagerMemory F → ManagerMemory F)

abbrev KeyCmd.Res : KeyCmd F → Type
  | .save _ => Unit
  | .loadForTenant _ => List EncryptionKeyEntry
  | .listTenants => List String
  | .loadForScope _ => List EncryptionKeyEntry
  | .destroyScope .. => List String
  | .self _ => ManagerMemory F
  | .assign .. => Unit

abbrev KeyM (F : Fernet) (α : Type) := ExceptT EncryptionExc (Prog (KeyCmd F) KeyCmd.Res) α

/-- What a call draws: an identifier, a key, the randomness of a wrapping, and the time. -/
structure KeyDraw (F : Fernet) where
  kid : String
  key : FernetFieldEncryptor F
  random : Bytes
  now : Instant

structure DestroyReceipt where
  scope : String
  kids : List String
  destroyedAt : Instant
  actor : Option String
  deriving DecidableEq

/-! ## `EncryptionKeyManager` -/

namespace EncryptionKeyManager

variable (master : Option (FernetFieldEncryptor F)) (manager : ℕ) (draw : KeyDraw F)

/-- `store.save(entry)` -/
def save (entry : EncryptionKeyEntry) : KeyM F Unit := Prog.call (KeyCmd.save entry)

/-- `store.load_for_tenant(tenant_id)` -/
def loadForTenant (tenantId : Option String) : KeyM F (List EncryptionKeyEntry) :=
  Prog.call (KeyCmd.loadForTenant tenantId)

/-- `_load_for_scope`, for a store with `load_for_scope`. -/
def loadForScope (scope : String) : KeyM F (List EncryptionKeyEntry) :=
  Prog.call (KeyCmd.loadForScope (some scope))

def self : KeyM F (ManagerMemory F) := Prog.call (KeyCmd.self manager)

def assign (f : ManagerMemory F → ManagerMemory F) : KeyM F Unit :=
  Prog.call (KeyCmd.assign manager f)

def generate (tenantId : Option String) (isPrimary : Bool) (scope : Option String := none) :
    FernetFieldEncryptor F × EncryptionKeyEntry :=
  let keyMaterial := master.elim draw.key.key fun kek => kek.encrypt draw.key.key draw.random
  (draw.key,
    .new draw.kid "fernet" keyMaterial draw.now tenantId isPrimary master.isSome scope)

def materialize (entry : EncryptionKeyEntry) : Except EncryptionExc (FernetFieldEncryptor F) := do
  if entry.algorithm ≠ "fernet" then
    throw (.other (.valueError
      (s!"EncryptionKeyManager._materialize: unsupported algorithm {pyRepr entry.algorithm}.  " ++
        "Only 'fernet' is supported.  Extend this method to add support for other algorithms.")))
  let rawBytes ←
    if entry.wrapped then
      match master with
      | none =>
        throw (.other ⟨"RuntimeError",
          s!"Key entry {pyRepr entry.kid} was stored with wrapped=True but " ++
            "no master_encryptor is configured in EncryptionKeyManager. " ++
            "Provide the same master KEK that was used when the key was generated."⟩)
      | some kek => kek.decrypt entry.keyMaterial none
    else pure entry.keyMaterial
  FernetFieldEncryptor.new rawBytes

def getOrCreateEncryptor (tenantId : Option String) : KeyM F (FernetFieldEncryptor F) := do
  match (← self manager).cache.get? tenantId with
  | some cached => return cached
  | none =>
    let entries ← loadForTenant tenantId
    match entries.find? (·.isPrimary) with
    | some primary =>
      let enc ← materialize master primary
      assign manager fun m => { m with cache := m.cache.set tenantId enc }
      return enc
    | none =>
      let (enc, entry) := generate master draw tenantId true
      save entry
      assign manager fun m => { m with cache := m.cache.set tenantId enc }
      return enc

def newestFirst (l : List EncryptionKeyEntry) : List EncryptionKeyEntry :=
  l.insertionSort fun e e' => e'.createdAt ≤ e.createdAt

/-- The body of the loop of `build_tenant_registry`. -/
def registerTenant (registry : TenantAwareEncryptorRegistry (FernetFieldEncryptor F))
    (tenantId : String) : KeyM F (TenantAwareEncryptorRegistry (FernetFieldEncryptor F)) := do
  let entries ← loadForTenant (some tenantId)
  match newestFirst (entries.filter (·.isPrimary)) with
  | [] => return registry
  | primary :: _ =>
    let enc ← materialize master primary
    assign manager fun m => { m with cache := m.cache.set (some tenantId) enc }
    return registry.register tenantId enc

def buildTenantRegistry : KeyM F (TenantAwareEncryptorRegistry (FernetFieldEncryptor F)) := do
  let tenantIds ← Prog.call KeyCmd.listTenants
  tenantIds.foldlM (registerTenant master manager) {}

def rotate (tenantId : Option String) : KeyM F (FernetFieldEncryptor F) := do
  let entries ← loadForTenant tenantId
  match entries.find? (·.isPrimary) with
  | none =>
    throw (.keyError
      (s!"Cannot rotate key for tenant {reprOption tenantId} — no primary key " ++
        "exists in the store.  Call get_or_create_encryptor() first."))
  | some currentPrimary =>
    save currentPrimary.demoted
    let (newEnc, newEntry) := generate master draw tenantId true
    save newEntry
    assign manager fun m => { m with cache := m.cache.set tenantId newEnc }
    return newEnc

def buildScopedRegistry (scope : String) : KeyM F (ScopedEncryptorRegistry ℕ) := do
  let entries ← loadForScope scope
  let (enc, primary) ←
    match newestFirst (entries.filter fun e => e.isPrimary && !e.isDestroyed) with
    | primary :: _ => do
      let enc ← materialize master primary
      pure (enc, primary)
    | [] => do
      let (enc, primary) := generate master draw none true (some scope)
      save primary
      pure (enc, primary)
  let multi := (← self manager).multis.length
  assign manager fun m => { m with
    scopedMulti := m.scopedMulti.set scope multi
    multis := m.multis ++ [.new primary.kid enc] }
  return ({} : ScopedEncryptorRegistry ℕ).register scope multi

def modifyMulti (multi : ℕ)
    (f : MultiKeyEncryptorRegistry (FernetFieldEncryptor F) →
      MultiKeyEncryptorRegistry (FernetFieldEncryptor F)) : KeyM F Unit :=
  assign manager fun m => { m with multis := m.multis.modify multi f }

def rotateScope (scope : String) : KeyM F (FernetFieldEncryptor F) := do
  let entries ← loadForScope scope
  match entries.find? fun e => e.isPrimary && !e.isDestroyed with
  | none =>
    throw (.keyError
      (s!"Cannot rotate key for scope {pyRepr scope} — no primary key " ++
        "exists in the store. Call build_scoped_registry() first."))
  | some currentPrimary =>
    save currentPrimary.demoted
    let (newEnc, newEntry) := generate master draw currentPrimary.tenantId true (some scope)
    save newEntry
    match (← self manager).scopedMulti.get? scope with
    | none => pure ()
    | some multi =>
      -- the key was registered just before, so that it can be promoted
      modifyMulti manager multi fun r =>
        { r.register newEntry.kid newEnc with primaryKid := newEntry.kid }
    return newEnc

def destroyScope (scope : String) (actor : Option String) : KeyM F DestroyReceipt := do
  let kids ← Prog.call (KeyCmd.destroyScope scope draw.now)
  match (← self manager).scopedMulti.get? scope with
  | none => pure ()
  | some multi =>
    modifyMulti manager multi fun r => kids.foldl MultiKeyEncryptorRegistry.destroy r
  assign manager fun m => { m with cache := m.cache.erase (some scope) }
  return { scope, kids, destroyedAt := draw.now, actor }

end EncryptionKeyManager

/-- A method of a manager. -/
inductive KeyOp
  | getOrCreateEncryptor (tenantId : Option String)
  | buildTenantRegistry
  | rotate (tenantId : Option String)
  | buildScopedRegistry (scope : String)
  | rotateScope (scope : String)
  | destroyScope (scope : String) (actor : Option String)

/-- What a method returns; a registry of scopes with the manager whose objects it refers to. -/
inductive KeyResult (F : Fernet)
  | encryptor (enc : FernetFieldEncryptor F)
  | tenants (registry : TenantAwareEncryptorRegistry (FernetFieldEncryptor F))
  | scoped (manager : ℕ) (registry : ScopedEncryptorRegistry ℕ)
  | receipt (receipt : DestroyReceipt)

/-- A call of a method of a manager. -/
structure KeyCall (F : Fernet) where
  manager : ℕ
  op : KeyOp
  draw : KeyDraw F

open EncryptionKeyManager in
def KeyCall.prog (master : Option (FernetFieldEncryptor F)) (c : KeyCall F) :
    KeyM F (KeyResult F) :=
  match c.op with
  | .getOrCreateEncryptor tenantId =>
    .encryptor <$> getOrCreateEncryptor master c.manager c.draw tenantId
  | .buildTenantRegistry => .tenants <$> buildTenantRegistry master c.manager
  | .rotate tenantId => .encryptor <$> rotate master c.manager c.draw tenantId
  | .buildScopedRegistry scope =>
    .scoped c.manager <$> buildScopedRegistry master c.manager c.draw scope
  | .rotateScope scope => .encryptor <$> rotateScope master c.manager c.draw scope
  | .destroyScope scope actor => .receipt <$> destroyScope c.manager c.draw scope actor

/-- A store, and managers over it. -/
structure KeyWorld (F : Fernet) where
  store : InMemoryEncryptionKeyStore := .empty
  memory : ℕ → ManagerMemory F := fun _ => {}

namespace KeyWorld

def exec (c : KeyCmd F) (w : KeyWorld F) : c.Res × KeyWorld F :=
  match c with
  | .save entry => ((), { w with store := w.store.save entry })
  | .loadForTenant tenantId => (w.store.loadForTenant tenantId, w)
  | .listTenants => (w.store.listTenants, w)
  | .loadForScope scope => (w.store.loadForScope scope, w)
  | .destroyScope scope now =>
    ((w.store.destroyScope scope now).1, { w with store := (w.store.destroyScope scope now).2 })
  | .self manager => (w.memory manager, w)
  | .assign manager f =>
    ((), { w with memory := Function.update w.memory manager (f (w.memory manager)) })

def multi (w : KeyWorld F) (manager place : ℕ) :
    MultiKeyEncryptorRegistry (FernetFieldEncryptor F) :=
  (w.memory manager).multis.getD place ⟨.empty, "", []⟩

/-- `ScopedEncryptorRegistry.encrypt`, of a registry that the manager has returned. -/
def encryptScoped (w : KeyWorld F) (manager : ℕ) (registry : ScopedEncryptorRegistry ℕ)
    (plaintext : Bytes) (context : Option String) (random : Bytes) :
    Except EncryptionExc Bytes := do
  let place ← registry.resolve context
  (w.multi manager place).encrypt plaintext context random

/-- `ScopedEncryptorRegistry.decrypt`, of a registry that the manager has returned. -/
def decryptScoped (w : KeyWorld F) (manager : ℕ) (registry : ScopedEncryptorRegistry ℕ)
    (ciphertext : Bytes) (context : Option String) : Except EncryptionExc Bytes := do
  let place ← registry.resolve context
  (w.multi manager place).decrypt ciphertext context

end KeyWorld

end Varco
