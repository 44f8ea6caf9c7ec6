import Varco.Foundations.Transaction
import Varco.Idempotency.Base

/-!
# The SQL idempotency store

`SAIdempotencyStore` of `varco_sa.idempotency`, after `start()`: one row for each key, with the key
as the primary key. Every write is a transaction of one statement. A row that has expired is taken
over by `DELETE` and `INSERT`, which are two transactions.
-/

namespace Varco

open Sql

/-- The column `state`, with the columns of the response: these are NULL as long as the key is only
reserved, and set all at once. -/
inductive RowState
  | reserved
  | completed (status : ℤ) (body : Bytes) (headers : List (String × String))
  deriving DecidableEq

/-- A row of `varco_idempotency`. -/
structure IdempotencyRow where
  key : String
  fingerprint : String
  state : RowState
  createdAt : Instant
  expiresAt : Instant
  deriving DecidableEq

namespace SAIdempotencyStore

abbrev Method (β : Type) := Sq IdempotencyRow.key β

def reservedRow (key fingerprint : String) (now expiresAt : Instant) : IdempotencyRow where
  key := key
  fingerprint := fingerprint
  state := .reserved
  createdAt := now
  expiresAt := expiresAt

/-- Insert the row: `true` iff there was none. -/
def tryInsert (row : IdempotencyRow) : Method Bool := do
  match ← Prog.attempt (transaction (execute (.insert row))) with
  | .ok _ => pure true
  | .error e => if e.typeName = "IntegrityError" then pure false else throw e

/-- `SELECT ... WHERE key = :key`, and `fetchone()`. -/
def fetchOne (key : String) : Method (Option IdempotencyRow) :=
  connection do
    let rows ← execute (.select (fun r => r.key = key) none)
    pure rows.head?

def insertOutcome (acquired : Bool) : ReserveOutcome := if acquired then .acquired else .inFlight

/-- `DELETE ... WHERE key = :key`, in a transaction of its own. -/
def deleteRow (key : String) : Method Unit :=
  transaction do
    let _ ← execute (.delete key)
    pure ()

/-- What `reserve` does when its first insert has failed. -/
def reserveExisting (row : IdempotencyRow) (now : Instant) : Method ReserveOutcome := do
  match ← fetchOne row.key with
  | none => do
    let acquired ← tryInsert row
    pure (insertOutcome acquired)
  | some found =>
    if found.expiresAt ≤ now then do
      deleteRow row.key
      let acquired ← tryInsert row
      pure (insertOutcome acquired)
    else
      match found.state with
      | .completed .. => pure .replay
      | .reserved => pure .inFlight

def reserve (key fingerprint : String) (ttl : PyFloat) : Method ReserveOutcome :=
  if ttl.val ≤ 0 then throw (ttlError ttl)
  else do
    let t ← now
    let row := reservedRow key fingerprint t (t + ttl.timedelta)
    let acquired ← tryInsert row
    if acquired then pure .acquired else reserveExisting row t

/-- The columns that `complete` sets. -/
def completedRow (record : IdempotencyRecord) (row : IdempotencyRow) : IdempotencyRow :=
  { row with
    state := .completed record.status record.body record.headers
    fingerprint := record.fingerprint }

def complete (key : String) (record : IdempotencyRecord) : Method Unit :=
  transaction do
    let _ ← execute (.update key (fun _ => true) (completedRow record) fun _ => rfl)
    pure ()

def get (key : String) : Method (Option IdempotencyRecord) := do
  match ← fetchOne key with
  | none => pure none
  | some row =>
    match row.state with
    | .reserved => pure none
    | .completed status body headers => do
      let t ← now
      if row.expiresAt ≤ t then pure none
      else pure (some ⟨status, body, headers, row.fingerprint, row.createdAt⟩)

def release (key : String) : Method Unit := deleteRow key

/-! ## Clients -/

abbrev Client := IdempotencyCall

abbrev Answer := IdempotencyAnswer

def Client.run : Client → Method Answer
  | .reserve key fp ttl => do
    let o ← SAIdempotencyStore.reserve key fp ttl
    pure (.outcome o)
  | .complete key record => do
    SAIdempotencyStore.complete key record
    pure .done
  | .get key => do
    let r ← SAIdempotencyStore.get key
    pure (.record r)
  | .release key => do
    SAIdempotencyStore.release key
    pure .done

end SAIdempotencyStore

end Varco
