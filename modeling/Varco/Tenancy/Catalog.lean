import Varco.Foundations.Dict
import Varco.Foundations.Text

/-!
# Catalogs of tenants

`AbstractTenantCatalog` by what its writing calls do to the rows, and `StaticTenantCatalog`.
-/

namespace Varco

inductive TenantStatus
  | pending
  | active
  | suspended
  | deprovisioning
  | deleted
  deriving DecidableEq

structure TenantDescriptor where
  tenantId : String
  schema : Option String := none
  database : Option String := none
  dsnRef : Option String := none
  status : TenantStatus := .pending
  deriving DecidableEq

abbrev TenantRows : Type := Dict String TenantDescriptor

/-- `TenantNotFoundError`. -/
def tenantNotFound (tenantId : String) : PyException :=
  ⟨"TenantNotFoundError", s!"Unknown tenant {pyRepr tenantId}."⟩

/-- `AbstractTenantCatalog`: the rows after a call, or what the call raises. A `get` of a tenant
without a row raises `TenantNotFoundError`. -/
structure TenantCatalog where
  add : TenantDescriptor → TenantRows → Except PyException TenantRows
  updateStatus : String → TenantStatus → TenantRows → Except PyException TenantRows
  remove : String → TenantRows → Except PyException TenantRows

def StaticTenantCatalog : TenantCatalog where
  add descriptor rows := .ok (rows.set descriptor.tenantId descriptor)
  updateStatus tenantId status rows :=
    match rows.get? tenantId with
    | none => .error (tenantNotFound tenantId)
    | some existing => .ok (rows.set tenantId { existing with status := status })
  remove tenantId rows := .ok (rows.erase tenantId)

/-- A call writes the row of its tenant only. -/
structure TenantCatalog.Lawful (catalog : TenantCatalog) : Prop where
  add_other : ∀ descriptor rows rows' t, catalog.add descriptor rows = .ok rows' →
    t ≠ descriptor.tenantId → rows'.get? t = rows.get? t
  update_self : ∀ tenantId status rows rows',
    catalog.updateStatus tenantId status rows = .ok rows' →
    ∃ descriptor, rows'.get? tenantId = some descriptor ∧ descriptor.status = status
  update_other : ∀ tenantId status rows rows' t,
    catalog.updateStatus tenantId status rows = .ok rows' → t ≠ tenantId →
      rows'.get? t = rows.get? t

/-- A deleted tenant stays deleted: `update_status` refuses to make a tenant active that is being or
was deprovisioned, and `add` keeps the row that a tenant has. -/
structure TenantCatalog.Tombstones (catalog : TenantCatalog) : Prop where
  refused : ∀ (rows : TenantRows) tenantId descriptor, rows.get? tenantId = some descriptor →
    descriptor.status = .deprovisioning ∨ descriptor.status = .deleted →
      ∀ rows', catalog.updateStatus tenantId .active rows ≠ .ok rows'
  kept : ∀ (rows : TenantRows) descriptor found rows',
    rows.get? descriptor.tenantId = some found → catalog.add descriptor rows = .ok rows' →
      rows'.get? descriptor.tenantId = some found

theorem StaticTenantCatalog_lawful : StaticTenantCatalog.Lawful := by
  constructor
  · rintro descriptor rows rows' t ⟨⟩ hne
    rw [Dict.get?_set, if_neg hne]
  · intro tenantId status rows rows' h
    simp only [StaticTenantCatalog] at h
    cases hrow : rows.get? tenantId with
    | none => simp [hrow] at h
    | some existing =>
      simp only [hrow, Except.ok.injEq] at h
      rw [← h]
      exact ⟨_, Dict.get?_set_self .., rfl⟩
  · intro tenantId status rows rows' t h hne
    simp only [StaticTenantCatalog] at h
    cases hrow : rows.get? tenantId with
    | none => simp [hrow] at h
    | some existing =>
      simp only [hrow, Except.ok.injEq] at h
      rw [← h, Dict.get?_set, if_neg hne]

end Varco
