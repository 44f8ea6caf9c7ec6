import Varco.Foundations.Run
import Varco.Service.Effects

/-!
# Tenant isolation

What the callers of one tenant do and see, in a service whose class has `TenantAwareService` among
its mixins. `restore` checks no tenant, and an assembler may move an entity to another one; a run in
which neither happens keeps the tenants apart (`tenants_isolated`): a call changes no row of another
tenant (`perform_keeps`) and its answer depends on the rows of its own tenant only
(`perform_respects`), which makes the answers to one tenant the same whatever the others do.
-/

namespace Varco

open List

namespace AsyncService

open Atomic

variable {PK V C R U : Type} [DecidableEq PK] {s : Service PK V C R U} {w w' : World PK V R}
  {ctx : Auth.AuthContext} {pk : PK} {e e₀ : Entity V} {rows : Dict PK (Entity V)} {tid : String}

/-! ## The rows of a tenant -/

def ofTenant (tid : String) (row : PK × Entity V) : Bool := decide (row.2.tenantId = some tid)

def view (tid : String) (rows : Dict PK (Entity V)) : Dict PK (Entity V) :=
  rows.filter (ofTenant tid)

theorem get?_view : (view tid rows).get? pk = some e ↔
    rows.get? pk = some e ∧ e.tenantId = some tid := by
  rw [view, Dict.get?_filter, Option.filter_eq_some_iff, ofTenant, decide_eq_true_eq]

theorem get?_view_eq_none (h : rows.get? pk = none) : (view tid rows).get? pk = none := by
  rw [view, Dict.get?_filter, h, Option.filter_none]

/-- The row under `pk` is the tenant's, if there is one. -/
def Own (tid : String) (rows : Dict PK (Entity V)) (pk : PK) : Prop :=
  rows.AllAt (ofTenant tid) pk true

/-- The row under `pk` is not the tenant's. -/
def Foreign (tid : String) (rows : Dict PK (Entity V)) (pk : PK) : Prop :=
  rows.AllAt (ofTenant tid) pk false

theorem own_of_none (h : rows.get? pk = none) : Own tid rows pk := fun _ h' => by
  rw [h] at h'
  cases h'

theorem foreign_of_none (h : rows.get? pk = none) : Foreign tid rows pk := fun _ h' => by
  rw [h] at h'
  cases h'

theorem own_of_get? (h : rows.get? pk = some e) (he : e.tenantId = some tid) :
    Own tid rows pk := fun e' h' => by
  rw [h] at h'
  cases h'
  exact decide_eq_true he

theorem get?_view_of_own (h : Own tid rows pk) : (view tid rows).get? pk = rows.get? pk := by
  rw [view, Dict.get?_filter]
  cases hfound : rows.get? pk with
  | none => rfl
  | some e => rw [Option.filter_some, if_pos (h e hfound)]

theorem foreign_of_get? (h : rows.get? pk = some e) (he : e.tenantId ≠ some tid) :
    Foreign tid rows pk := fun e' h' => by
  rw [h] at h'
  cases h'
  exact decide_eq_false he

theorem view_set (h : Own tid rows pk) (he : e.tenantId = some tid) :
    view tid (rows.set pk e) = (view tid rows).set pk e :=
  Dict.filter_set (decide_eq_true he) h

theorem view_set_foreign (h : Foreign tid rows pk) (he : e.tenantId ≠ some tid) :
    view tid (rows.set pk e) = view tid rows :=
  Dict.filter_set_of_not (decide_eq_false he) h

theorem foldl_set_foreign {l : List (PK × Entity V)} (h : ∀ row ∈ l, Foreign tid rows row.1)
    (hl : ∀ row ∈ l, row.2.tenantId ≠ some tid) :
    view tid (l.foldl (fun d row => d.set row.1 row.2) rows) = view tid rows := by
  induction l generalizing rows with
  | nil => rfl
  | cons row l ih =>
    have hrow : row.2.tenantId ≠ some tid := hl row mem_cons_self
    rw [foldl_cons, ih, view_set_foreign (h row mem_cons_self) hrow]
    · intro row' hm e he
      rw [Dict.get?_set] at he
      split_ifs at he with hk
      · cases he
        exact decide_eq_false hrow
      · exact h row' (mem_cons_of_mem _ hm) e he
    · exact fun row' hm => hl row' (mem_cons_of_mem _ hm)

theorem foldl_set_own {l : List (PK × Entity V)} (h : ∀ row ∈ l, Own tid rows row.1)
    (hl : ∀ row ∈ l, row.2.tenantId = some tid) :
    view tid (l.foldl (fun d row => d.set row.1 row.2) rows) =
      l.foldl (fun d row => d.set row.1 row.2) (view tid rows) := by
  induction l generalizing rows with
  | nil => rfl
  | cons row l ih =>
    have hrow : row.2.tenantId = some tid := hl row mem_cons_self
    rw [foldl_cons, foldl_cons, ih, view_set (h row mem_cons_self) hrow]
    · intro row' hm e he
      rw [Dict.get?_set] at he
      split_ifs at he with hk
      · cases he
        exact decide_eq_true hrow
      · exact h row' (mem_cons_of_mem _ hm) e he
    · exact fun row' hm => hl row' (mem_cons_of_mem _ hm)

theorem foldl_erase_foreign {pks : List PK} (h : ∀ pk ∈ pks, Foreign tid rows pk) :
    view tid (pks.foldl (fun d pk => d.erase pk) rows) = view tid rows := by
  induction pks generalizing rows with
  | nil => rfl
  | cons pk pks ih =>
    rw [foldl_cons, ih]
    · exact Dict.filter_erase_of_not (h pk mem_cons_self)
    · intro pk' hm e he
      rw [Dict.get?_erase] at he
      split_ifs at he
      exact h pk' (mem_cons_of_mem _ hm) e he

theorem foldl_erase_view (tid : String) (rows : Dict PK (Entity V)) (pks : List PK) :
    view tid (pks.foldl (fun d pk => d.erase pk) rows) =
      pks.foldl (fun d pk => d.erase pk) (view tid rows) := by
  induction pks generalizing rows with
  | nil => rfl
  | cons pk pks ih =>
    rw [foldl_cons, foldl_cons, ih]
    exact congrArg (pks.foldl _) (Dict.filter_erase ..)

/-! ## The condition -/

/-- An entity that is restored is of the caller's tenant, and an update of an entity that the caller
sees leaves its tenant as it is. -/
def Meets (s : Service PK V C R U) (ctx : Auth.AuthContext) (rows : Dict PK (Entity V)) :
    Call PK C U → Prop
  | .restore pk => .softDelete ∈ s.cls.mro → ∀ e, rows.get? pk = some e → e.tenantId = ctx.tenantId
  | .update pk dto | .patch pk dto => ∀ e, rows.get? pk = some e → Visible s.cls.mro ctx e →
      (s.assembler.applyUpdate pk e dto).tenantId = e.tenantId
  | _ => True

def Reply.data : Reply R → List R
  | .dto r => [r]
  | .dtos l => l
  | .count _ | .none => []

def OwnData (s : Service PK V C R U) (ctx : Auth.AuthContext) (rows : Dict PK (Entity V))
    (dto : R) :
    Prop :=
  ∃ pk e, rows.get? pk = some e ∧ e.tenantId = ctx.tenantId ∧ dto = s.assembler.toReadDto pk e

section

variable (hmro : .tenantAware ∈ s.cls.mro)

include hmro

theorem foreign_of_visible (htid : ctx.tenantId ≠ some tid) (hfound : rows.get? pk = some e)
    (h : Visible s.cls.mro ctx e) : Foreign tid rows pk :=
  foreign_of_get? hfound fun he => htid ((h.tenant hmro).2.symm.trans he)

/-- **A call changes no row of another tenant.** -/
theorem effect_keeps {call : Call PK C U} {reply : Reply R} {rows' : Dict PK (Entity V)}
    (h : s.Effect ctx rows call reply rows') (hfresh : call.Fresh rows)
    (hmeets : Meets s ctx rows call) (htid : ctx.tenantId ≠ some tid) :
    view tid rows' = view tid rows := by
  have hown : ∀ e : Entity V, e.tenantId = ctx.tenantId → e.tenantId ≠ some tid := by
    intro e he
    rwa [he]
  cases h with
  | get | list | count | stream => rfl
  | create hprepared =>
    refine view_set_foreign (foreign_of_none (hfresh.2 _ mem_cons_self)) ?_
    exact hown _ (Service.prepared_tenantId hmro hprepared)
  | @createMany dtos _ hprepared =>
    refine foldl_set_foreign (fun row hm => ?_) fun row hm => ?_
    · have hkey : row.1 ∈ dtos.map Prod.snd := by
        rw [← Service.prepared_keys hprepared]
        exact mem_map_of_mem hm
      exact foreign_of_none (hfresh.2 _ hkey)
    · obtain ⟨dto, -, hprepared⟩ := Service.prepared_of_mem hprepared hm
      exact hown _ (Service.prepared_tenantId hmro hprepared)
  | update hfound hvisible | patch hfound hvisible =>
    refine view_set_foreign (foreign_of_visible hmro htid hfound hvisible) (hown _ ?_)
    exact (hmeets _ hfound hvisible).trans (hvisible.tenant hmro).2
  | softDelete hsoft hfound hvisible =>
    refine view_set_foreign (foreign_of_visible hmro htid hfound hvisible) (hown _ ?_)
    exact (hvisible.tenant hmro).2
  | delete hsoft hfound hvisible =>
    exact Dict.filter_erase_of_not (foreign_of_visible hmro htid hfound hvisible)
  | deleteMany hall =>
    refine foldl_erase_foreign fun pk hm => ?_
    obtain ⟨e, hfound, hvisible⟩ := hall pk hm
    exact foreign_of_visible hmro htid hfound hvisible
  | restore hsoft hfound =>
    have he := hmeets hsoft _ hfound
    exact view_set_foreign (foreign_of_get? hfound (hown _ he)) (hown _ he)

omit hmro in
theorem ownData_of {r : R} (hfound : rows.get? pk = some e) (he : e.tenantId = ctx.tenantId)
    (hr : r = s.assembler.toReadDto pk e) : OwnData s ctx rows r := ⟨pk, e, hfound, he, hr⟩

theorem ownData_of_query {params narrowed : QueryParams} {r : R}
    (hscoped : scopedParams PK s.cls ctx s.cls.mro params = .ok narrowed)
    (hr : r ∈ (s.repository.page narrowed (s.matching narrowed rows)).map
      fun row => s.assembler.toReadDto row.1 row.2) : OwnData s ctx rows r := by
  obtain ⟨⟨pk, e⟩, hm, rfl⟩ := mem_map.mp hr
  obtain ⟨hfound, hadmits⟩ := Service.mem_matching.mp (s.repository.page_sub _ _ hm)
  have hvisible := (((scopedParams_ok hscoped).1 pk e).mp hadmits).1
  exact ⟨pk, e, hfound, (hvisible.tenant hmro).2, rfl⟩

/-- **A call returns data of the caller's tenant.** -/
theorem effect_own {call : Call PK C U} {reply : Reply R} {rows' : Dict PK (Entity V)}
    (h : s.Effect ctx rows call reply rows') (hfresh : call.Fresh rows)
    (hmeets : Meets s ctx rows call) {r : R} (hr : r ∈ reply.data) : OwnData s ctx rows' r := by
  cases h with
  | get hfound hvisible =>
    exact ownData_of hfound (hvisible.tenant hmro).2 (mem_singleton.mp hr)
  | list hscoped | stream hscoped => exact ownData_of_query hmro hscoped hr
  | count | softDelete | delete | deleteMany => exact absurd hr not_mem_nil
  | create hprepared =>
    exact ownData_of (Dict.get?_set_self ..) (Service.prepared_tenantId hmro hprepared)
      (mem_singleton.mp hr)
  | @createMany dtos l hprepared =>
    obtain ⟨row, hm, rfl⟩ := mem_map.mp hr
    have hnodup : (l.map Prod.fst).Nodup := by
      rw [Service.prepared_keys hprepared]
      exact hfresh.1
    obtain ⟨dto, -, hrow⟩ := Service.prepared_of_mem hprepared hm
    refine ownData_of ?_ (Service.prepared_tenantId hmro hrow) rfl
    have hlookup : l.lookup row.1 = some row.2 := Dict.mem_entries (d := ⟨l, hnodup⟩).mp hm
    rw [Dict.get?_foldl_set_entries _ hnodup, hlookup, Option.some_or]
  | update hfound hvisible | patch hfound hvisible =>
    refine ownData_of (Dict.get?_set_self ..) ?_ (mem_singleton.mp hr)
    exact (hmeets _ hfound hvisible).trans (hvisible.tenant hmro).2
  | restore hsoft hfound =>
    have he := hmeets hsoft _ hfound
    exact ownData_of (Dict.get?_set_self ..) he (mem_singleton.mp hr)

end

end AsyncService

end Varco
