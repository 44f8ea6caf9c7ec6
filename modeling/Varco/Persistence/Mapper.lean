import Varco.Foundations.Python

/-!
# The mapper between domain entities and rows

`AbstractMapper.to_orm`, `from_orm` and `sync_to_orm`, for a class with a primary key of one column,
no encrypted fields and no migrator. The business fields of an entity are one value.
-/

namespace Varco

/-- An ORM object, and the row or document that it stands for. -/
structure OrmObject (PK V : Type) where
  pk : PK
  body : V
  createdAt : Instant
  updatedAt : Instant
  definitionVersion : ℤ
  rowVersion : ℤ
  deriving DecidableEq

/-- A domain entity. `rawOrm` is a reference to the ORM object that it was made from. -/
structure DomainModel (PK V : Type) where
  pk : Option PK := none
  rawOrm : Option ℕ := none
  body : V
  createdAt : Option Instant := none
  updatedAt : Option Instant := none
  definitionVersion : ℤ := 1
  rowVersion : ℤ := 0

/-- A mapper: the name of its class, whether `row_version` is a field of it, and `repr(pk)`. -/
structure AbstractMapper (PK : Type) where
  className : String
  versioned : Bool := true
  reprPk : PK → String

namespace AbstractMapper

variable {PK V : Type} (mapper : AbstractMapper PK)

def staleEntityError (expectedVersion actualVersion : ℤ) : PyException :=
  ⟨"StaleEntityError", s!"Stale {mapper.className}: expected row_version={expectedVersion}, " ++
    s!"found {actualVersion}. Reload the entity and retry."⟩

/-- `to_orm`, where `newPk` is the key that is assigned if the entity has none. -/
def toOrm (now : Instant) (newPk : PK) (domain : DomainModel PK V) : OrmObject PK V :=
  { pk := domain.pk.getD newPk, body := domain.body, createdAt := now, updatedAt := now,
    definitionVersion := 1, rowVersion := 1 }

/-- `from_orm`, where `ref` is the reference to the object. -/
def fromOrm (ref : ℕ) (ormObj : OrmObject PK V) : DomainModel PK V :=
  { pk := some ormObj.pk, rawOrm := some ref, body := ormObj.body,
    createdAt := some ormObj.createdAt, updatedAt := some ormObj.updatedAt,
    definitionVersion := ormObj.definitionVersion, rowVersion := ormObj.rowVersion }

/-- `sync_to_orm`: the object that the entity is written to. -/
def syncToOrm (now : Instant) (domain : DomainModel PK V) (ormObj : OrmObject PK V) :
    Except PyException (OrmObject PK V) :=
  if mapper.versioned && ormObj.rowVersion != domain.rowVersion then
    .error (mapper.staleEntityError domain.rowVersion ormObj.rowVersion)
  else .ok
    { ormObj with
      body := domain.body
      updatedAt := now
      rowVersion := if mapper.versioned then domain.rowVersion + 1 else ormObj.rowVersion
      definitionVersion := domain.definitionVersion }

theorem syncToOrm_ok (hversioned : mapper.versioned = true) {now : Instant}
    {domain : DomainModel PK V} {ormObj ormObj' : OrmObject PK V} :
    mapper.syncToOrm now domain ormObj = .ok ormObj' ↔
      ormObj.rowVersion = domain.rowVersion ∧
      ormObj' = { ormObj with
        body := domain.body
        updatedAt := now
        rowVersion := domain.rowVersion + 1
        definitionVersion := domain.definitionVersion } := by
  unfold syncToOrm
  rw [hversioned, Bool.true_and, if_pos rfl]
  by_cases h : ormObj.rowVersion = domain.rowVersion
  · rw [if_neg (by simpa using h), Except.ok.injEq, eq_comm (b := ormObj')]
    exact (and_iff_right h).symm
  · rw [if_pos (by simpa using h)]
    exact iff_of_false (fun heq => by cases heq) fun heq => h heq.1

theorem typeName_of_syncToOrm {now : Instant} {domain : DomainModel PK V} {ormObj : OrmObject PK V}
    {exc : PyException} (h : mapper.syncToOrm now domain ormObj = .error exc) :
    exc.typeName = "StaleEntityError" := by
  unfold syncToOrm at h
  split_ifs at h
  cases h
  rfl

end AbstractMapper

/-- `domain_replace` with other business fields. -/
def DomainModel.replace {PK V : Type} (entity : DomainModel PK V) (body : V) : DomainModel PK V :=
  { entity with body }

end Varco
