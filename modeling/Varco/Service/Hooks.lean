import Varco.Service.Base

/-!
# What the hooks do

Each hook of a service class, down an MRO of any length and order: `Visible` is what the checks of
the mixins come to, for an entity that is fetched (`checkEntity_ok_iff`) and for one that a query
finds (`scopedParams_ok`).
-/

namespace Varco

open List

namespace AsyncService

variable {PK V : Type} {ctx : Auth.AuthContext} {pk : PK} {e : Entity V} {mro : List Mixin}

/-- The mixins that refuse a caller without a tenant do not refuse this one. -/
def HasTenant (mro : List Mixin) (ctx : Auth.AuthContext) : Prop :=
  .tenantAware ∈ mro → ctx.tenantId.isSome

/-- No mixin hides the entity from the caller. -/
structure Visible (mro : List Mixin) (ctx : Auth.AuthContext) (e : Entity V) : Prop where
  tenant : .tenantAware ∈ mro → ctx.tenantId.isSome ∧ e.tenantId = ctx.tenantId
  active : .softDelete ∈ mro → e.deletedAt = none

theorem requireTenant_ok_iff {tid : String} :
    requireTenant PK ctx = .ok tid ↔ ctx.tenantId = some tid := by
  unfold requireTenant
  cases ctx.tenantId with
  | none => exact iff_of_false (fun h => by cases h) (Option.some_ne_none tid).symm
  | some t =>
    dsimp only
    rw [Except.ok.injEq, Option.some.injEq]

theorem requireTenant_none (h : ctx.tenantId = none) :
    requireTenant PK ctx = .error (.authorization "access") := by
  rw [requireTenant, h]

theorem bind_requireTenant {α : Type} {tid : String} (h : ctx.tenantId = some tid)
    (f : String → Except (ServiceError PK) α) : (requireTenant PK ctx >>= f) = f tid := by
  rw [requireTenant_ok_iff.mpr h]
  rfl

theorem bind_requireTenant_none {α : Type} (h : ctx.tenantId = none)
    (f : String → Except (ServiceError PK) α) :
    (requireTenant PK ctx >>= f) = .error (.authorization "access") := by
  rw [requireTenant_none h]
  rfl

theorem visible_nil : Visible [] ctx e :=
  ⟨fun h => absurd h not_mem_nil, fun h => absurd h not_mem_nil⟩

theorem visible_tenantAware : Visible (.tenantAware :: mro) ctx e ↔
    (ctx.tenantId.isSome ∧ e.tenantId = ctx.tenantId) ∧ Visible mro ctx e := by
  constructor
  · intro h
    exact ⟨h.tenant mem_cons_self, fun hm => h.tenant (mem_cons_of_mem _ hm),
      fun hm => h.active (mem_cons_of_mem _ hm)⟩
  · rintro ⟨htenant, h⟩
    exact ⟨fun _ => htenant, fun hm => h.active (mem_of_ne_of_mem (by decide) hm)⟩

theorem visible_softDelete : Visible (.softDelete :: mro) ctx e ↔
    e.deletedAt = none ∧ Visible mro ctx e := by
  constructor
  · intro h
    exact ⟨h.active mem_cons_self, fun hm => h.tenant (mem_cons_of_mem _ hm),
      fun hm => h.active (mem_cons_of_mem _ hm)⟩
  · rintro ⟨hactive, h⟩
    exact ⟨fun hm => h.tenant (mem_of_ne_of_mem (by decide) hm), fun _ => hactive⟩

theorem visible_bulk : Visible (.bulk :: mro) ctx e ↔ Visible mro ctx e := by
  constructor
  · intro h
    exact ⟨fun hm => h.tenant (mem_cons_of_mem _ hm),
      fun hm => h.active (mem_cons_of_mem _ hm)⟩
  · intro h
    exact ⟨fun hm => h.tenant (mem_of_ne_of_mem (by decide) hm),
      fun hm => h.active (mem_of_ne_of_mem (by decide) hm)⟩

/-- **`_check_entity` lets the visible entities pass.** -/
theorem checkEntity_ok_iff : checkEntity ctx pk e mro = .ok () ↔ Visible mro ctx e := by
  induction mro with
  | nil => exact iff_of_true rfl visible_nil
  | cons mixin mro ih =>
    cases mixin with
    | tenantAware =>
      rw [visible_tenantAware]
      unfold checkEntity
      cases htid : ctx.tenantId with
      | none =>
        rw [bind_requireTenant_none htid]
        exact iff_of_false (fun h => by cases h) fun h => by cases h.1.1
      | some tid =>
        rw [bind_requireTenant htid]
        by_cases he : e.tenantId = some tid
        · rw [if_neg (not_not.mpr he), ih]
          exact (and_iff_right ⟨rfl, he⟩).symm
        · rw [if_pos he]
          exact iff_of_false (fun h => by cases h) fun h => he h.1.2
    | softDelete =>
      rw [visible_softDelete]
      unfold checkEntity
      cases he : e.deletedAt with
      | none =>
        rw [Option.isSome_none, if_neg Bool.false_ne_true, ih]
        exact (and_iff_right rfl).symm
      | some t =>
        rw [Option.isSome_some, if_pos rfl]
        exact iff_of_false (fun h => by cases h) fun h => by cases h.1
    | bulk =>
      rw [visible_bulk, ← ih]
      rfl

/-- An entity of another tenant is not found, whatever else is to be said of it. -/
theorem checkEntity_foreign {tid : String} (hmro : .tenantAware ∈ mro)
    (htid : ctx.tenantId = some tid) (he : e.tenantId ≠ some tid) :
    checkEntity ctx pk e mro = .error (.notFound pk) := by
  induction mro with
  | nil => exact absurd hmro not_mem_nil
  | cons mixin mro ih =>
    unfold checkEntity
    cases mixin with
    | tenantAware =>
      dsimp only
      rw [bind_requireTenant htid, if_pos he]
    | softDelete =>
      dsimp only
      split_ifs
      · rfl
      · exact ih (mem_of_ne_of_mem (by decide) hmro)
    | bulk => exact ih (mem_of_ne_of_mem (by decide) hmro)

theorem hasTenant_tenantAware : HasTenant (.tenantAware :: mro) ctx ↔
    ctx.tenantId.isSome ∧ HasTenant mro ctx :=
  ⟨fun h => ⟨h mem_cons_self, fun hm => h (mem_cons_of_mem _ hm)⟩, fun h _ => h.1⟩

theorem hasTenant_softDelete : HasTenant (.softDelete :: mro) ctx ↔ HasTenant mro ctx :=
  ⟨fun h hm => h (mem_cons_of_mem _ hm),
    fun h hm => h (mem_of_ne_of_mem (by decide) hm)⟩

theorem hasTenant_bulk : HasTenant (.bulk :: mro) ctx ↔ HasTenant mro ctx :=
  ⟨fun h hm => h (mem_cons_of_mem _ hm),
    fun h hm => h (mem_of_ne_of_mem (by decide) hm)⟩

/-- `_pre_check` refuses a caller without a tenant, where a mixin asks for one. -/
theorem preCheckChain_ok_iff : preCheckChain PK ctx mro = .ok () ↔ HasTenant mro ctx := by
  induction mro with
  | nil => exact iff_of_true rfl fun h => absurd h not_mem_nil
  | cons mixin mro ih =>
    cases mixin with
    | tenantAware =>
      rw [hasTenant_tenantAware]
      unfold preCheckChain
      cases htid : ctx.tenantId with
      | none =>
        rw [bind_requireTenant_none htid]
        exact iff_of_false (fun h => by cases h) fun h => by cases h.1
      | some tid =>
        rw [bind_requireTenant htid, ih]
        exact (and_iff_right rfl).symm
    | softDelete =>
      rw [hasTenant_softDelete, ← ih]
      rfl
    | bulk =>
      rw [hasTenant_bulk, ← ih]
      rfl

/-! ## Queries -/

def Admits {cls : ServiceClass} (repository : Repository PK V cls) (params : QueryParams) (pk : PK)
    (e : Entity V) : Prop :=
  params.node.all (repository.holds · pk e) = true

variable {cls : ServiceClass} {repository : Repository PK V cls} {params narrowed : QueryParams}

theorem admits_and {builder : QueryBuilder} {node : TransformerNode}
    (h : builder.node = some node) :
    Admits repository { params with node := (builder.and ⟨params.node⟩).node } pk e ↔
      repository.holds node pk e = true ∧ Admits repository params pk e := by
  obtain ⟨_⟩ := builder
  cases h
  unfold Admits
  cases hnode : params.node with
  | none => simp [QueryBuilder.and]
  | some right => simp [QueryBuilder.and, repository.holds_and]

theorem admits_tenant {tid : String} :
    Admits repository { params with
      node := ((QueryBuilder.eq cls.tenantField (.str tid)).and ⟨params.node⟩).node } pk e ↔
      e.tenantId = some tid ∧ Admits repository params pk e := by
  refine (admits_and rfl).trans (and_congr_left fun _ => ?_)
  rw [repository.holds_tenant, decide_eq_true_eq]

theorem admits_active :
    Admits repository { params with
      node := ((QueryBuilder.isNull cls.softDeleteField).and ⟨params.node⟩).node } pk e ↔
      e.deletedAt = none ∧ Admits repository params pk e := by
  refine (admits_and rfl).trans (and_congr_left fun _ => ?_)
  rw [repository.holds_deleted, Option.isNone_iff_eq_none]

/-- **`_scoped_params` narrows a query to the visible entities**, and leaves the rest of it. -/
theorem scopedParams_ok (h : scopedParams PK cls ctx mro params = .ok narrowed) :
    (∀ pk e, Admits repository narrowed pk e ↔
      Visible mro ctx e ∧ Admits repository params pk e) ∧
      narrowed.limit = params.limit ∧ narrowed.offset = params.offset := by
  induction mro generalizing params with
  | nil =>
    cases h
    exact ⟨fun _ _ => (and_iff_right visible_nil).symm, rfl, rfl⟩
  | cons mixin mro ih =>
    unfold scopedParams at h
    cases mixin with
    | tenantAware =>
      dsimp only at h
      cases htid : ctx.tenantId with
      | none =>
        rw [bind_requireTenant_none htid] at h
        cases h
      | some tid =>
        rw [bind_requireTenant htid] at h
        obtain ⟨hadmits, hlimit, hoffset⟩ := ih h
        refine ⟨fun pk e => ?_, hlimit, hoffset⟩
        have hsome : (ctx.tenantId.isSome ∧ e.tenantId = ctx.tenantId) ↔
            e.tenantId = some tid := by rw [htid, and_iff_right (Option.isSome_some)]
        rw [hadmits, admits_tenant, visible_tenantAware, hsome, and_left_comm, and_assoc]
    | softDelete =>
      obtain ⟨hadmits, hlimit, hoffset⟩ := ih h
      refine ⟨fun pk e => ?_, hlimit, hoffset⟩
      rw [hadmits, admits_active, visible_softDelete, and_left_comm, and_assoc]
    | bulk =>
      obtain ⟨hadmits, hlimit, hoffset⟩ := ih h
      refine ⟨fun pk e => ?_, hlimit, hoffset⟩
      rw [hadmits, visible_bulk]

/-! ## New entities -/

/-- **`_prepare_for_create` makes an entity that the caller sees**, in what the mixins look at. -/
theorem prepareForCreate_ok {e' : Entity V} (h : prepareForCreate PK ctx mro e = .ok e') :
    HasTenant mro ctx ∧ e'.tenantId = (if .tenantAware ∈ mro then ctx.tenantId else e.tenantId) ∧
      e'.deletedAt = (if .softDelete ∈ mro then none else e.deletedAt) := by
  induction mro generalizing e with
  | nil =>
    cases h
    exact ⟨fun hm => absurd hm not_mem_nil, rfl, rfl⟩
  | cons mixin mro ih =>
    unfold prepareForCreate at h
    cases mixin with
    | tenantAware =>
      dsimp only at h
      cases htid : ctx.tenantId with
      | none =>
        rw [bind_requireTenant_none htid] at h
        cases h
      | some tid =>
        rw [bind_requireTenant htid] at h
        obtain ⟨htenant, hid, hdeleted⟩ := ih h
        refine ⟨hasTenant_tenantAware.mpr ⟨by rw [htid]; rfl, htenant⟩, ?_, ?_⟩
        · rw [hid, htid, if_pos mem_cons_self, ite_self]
        · rw [hdeleted]
          simp
    | softDelete =>
      obtain ⟨htenant, hid, hdeleted⟩ := ih h
      refine ⟨hasTenant_softDelete.mpr htenant, ?_, ?_⟩
      · rw [hid]
        simp
      · rw [hdeleted, if_pos mem_cons_self, ite_self]
    | bulk =>
      obtain ⟨htenant, hid, hdeleted⟩ := ih h
      refine ⟨hasTenant_bulk.mpr htenant, ?_, ?_⟩
      · rw [hid]
        simp
      · rw [hdeleted]
        simp

end AsyncService

end Varco
