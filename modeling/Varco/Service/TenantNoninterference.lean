import Varco.Service.Table
import Varco.Service.TenantIsolation

/-!
# What another tenant can influence

Two runs of a service in which the rows of one tenant are the same: the same call of a caller of
this tenant has the same answer in both, and leaves the same rows of the tenant
(`perform_respects`). Together with what a call of another tenant leaves alone (`effect_keeps`) this
makes the answers to a tenant's calls independent of the other tenants (`tenants_isolated`).

An operation that writes no row respects every relation on the rows (`OnRows`), so the relation can
carry what the rows that follow need.
-/

namespace Varco

open List

namespace AsyncService

open Atomic Service

variable {PK V C R U : Type} {s : Service PK V C R U} {w w' : World PK V R}
  {ctx : Auth.AuthContext} {pk : PK} {tid : String}
  {ρ : Dict PK (Entity V) → Dict PK (Entity V) → Prop}

def OnRows (ρ : Dict PK (Entity V) → Dict PK (Entity V) → Prop) (w₁ w₂ : World PK V R) : Prop :=
  ρ w₁.rows w₂.rows

def SameView (tid : String) (rows₁ rows₂ : Dict PK (Entity V)) : Prop :=
  view tid rows₁ = view tid rows₂

theorem note_respects {t : Trace PK R} :
    Respects (OnRows ρ) (note t : ServiceM PK V R PUnit) fun _ => OnRows ρ :=
  .modify fun _ _ h => h

theorem lift_respects {α : Type} {r : Except (ServiceError PK) α} :
    Respects (OnRows ρ) (.lift r : ServiceM PK V R α) fun _ => OnRows ρ :=
  .lift fun _ _ _ h _ => h

theorem pure_respects {α : Type} {a : α} :
    Respects (OnRows ρ) (pure a : ServiceM PK V R α) fun _ => OnRows ρ :=
  .pure fun _ _ h => h

theorem authorize_respects {action : Action} {resource : Option (PK × Entity V)} :
    Respects (OnRows ρ) (s.authorize ctx action resource) fun _ => OnRows ρ := lift_respects

theorem preCheck_respects : Respects (OnRows ρ) (s.preCheck ctx) fun _ => OnRows ρ :=
  note_respects.bind fun _ => lift_respects

theorem afterDeletion_respects :
    Respects (OnRows ρ) (afterDeletion ctx pk : ServiceM PK V R PUnit) fun _ =>
      OnRows ρ :=
  note_respects.bind fun _ => note_respects

theorem prepareDtos_respects {dtos : List (C × PK)} :
    Respects (OnRows ρ) (dtos.mapM (s.prepareDto ctx)) fun l =>
      OnRows fun rows₁ rows₂ => ρ rows₁ rows₂ ∧ List.Forall₂ (s.Prepared ctx) dtos l := by
  have hmapM : Respects (OnRows ρ) (dtos.mapM (s.prepareDto ctx)) fun _ => OnRows ρ :=
    .mapM fun dto _ => lift_respects.bind fun _ => pure_respects
  exact hmapM.strengthen fun w l w' h => (mapM_prepareDto_ok h).1

section

variable (hmro : .tenantAware ∈ s.cls.mro) (htid : ctx.tenantId = some tid)

/-! ## Queries -/

section

include hmro htid

variable {params narrowed : QueryParams}

theorem matching_view {rows : Dict PK (Entity V)}
    (hscoped : scopedParams PK s.cls ctx s.cls.mro params = .ok narrowed) :
    s.matching narrowed rows = s.matching narrowed (view tid rows) := by
  unfold matching
  rw [view, Dict.entries_filter, filter_filter]
  refine filter_congr fun row _ => ?_
  rw [Bool.eq_iff_iff, Bool.and_eq_true, iff_self_and]
  intro h
  have hvisible := (((scopedParams_ok hscoped).1 row.1 row.2).mp h).1
  exact decide_eq_true ((hvisible.tenant hmro).2.trans htid)

theorem query_respects {α : Type} (f : List (PK × Entity V) → α)
    (hscoped : scopedParams PK s.cls ctx s.cls.mro params = .ok narrowed) :
    Respects (OnRows (SameView tid)) (fun w =>
      match s.repository.refuses narrowed with
      | some e => .error (.query e)
      | none => .ok (f (s.matching narrowed w.rows), w) : ServiceM PK V R α)
      fun _ => OnRows (SameView tid) := by
  intro w₁ w₂ h
  have hsame : view tid w₁.rows = view tid w₂.rows := h
  dsimp only
  rw [matching_view hmro htid hscoped, hsame, ← matching_view hmro htid hscoped]
  cases s.repository.refuses narrowed with
  | none => exact .inl ⟨_, w₁, w₂, rfl, rfl, h⟩
  | some e => exact .inr ⟨_, rfl, rfl⟩

end

/-! ## Lookups -/

variable [DecidableEq PK]

/-- The row under `pk`, which the caller sees, is the same. -/
structure Found (s : Service PK V C R U) (ctx : Auth.AuthContext)
    (ρ : Dict PK (Entity V) → Dict PK (Entity V) → Prop) (pk : PK) (e : Entity V)
    (rows₁ rows₂ : Dict PK (Entity V)) : Prop where
  related : ρ rows₁ rows₂
  left : rows₁.get? pk = some e
  right : rows₂.get? pk = some e
  visible : Visible s.cls.mro ctx e

theorem findChecked_none (h : w.rows.get? pk = none) :
    s.findChecked pk ctx w = .error (.notFound pk) := by
  have hfind : findById pk w = .ok (none, w) := findById_ok.mpr ⟨h.symm, rfl⟩
  unfold findChecked
  rw [bind_apply, hfind]
  rfl

theorem findChecked_some {e : Entity V} (h : w.rows.get? pk = some e) :
    s.findChecked pk ctx w = (checkEntity ctx pk e s.cls.mro).map fun _ => (e, w) := by
  have hfind : findById pk w = .ok (some e, w) := findById_ok.mpr ⟨h.symm, rfl⟩
  unfold findChecked
  rw [bind_apply, hfind]
  dsimp only
  rw [bind_apply, lift]
  cases checkEntity ctx pk e s.cls.mro <;> rfl

include hmro htid

theorem findChecked_view : s.findChecked pk ctx w = match (view tid w.rows).get? pk with
    | none => .error (.notFound pk)
    | some e => (checkEntity ctx pk e s.cls.mro).map fun _ => (e, w) := by
  cases hfound : w.rows.get? pk with
  | none => rw [get?_view_eq_none hfound, findChecked_none hfound]
  | some e =>
    rw [findChecked_some hfound]
    by_cases he : e.tenantId = some tid
    · rw [get?_view.mpr ⟨hfound, he⟩]
    · have hnone : (view tid w.rows).get? pk = none := by
        refine Option.eq_none_iff_forall_ne_some.mpr fun e' h => ?_
        obtain ⟨h, he'⟩ := get?_view.mp h
        rw [hfound] at h
        cases h
        exact he he'
      rw [hnone, checkEntity_foreign hmro htid he]
      rfl

theorem findChecked_respects (hρ : ∀ rows₁ rows₂, ρ rows₁ rows₂ → SameView tid rows₁ rows₂) :
    Respects (OnRows ρ) (s.findChecked pk ctx) fun e => OnRows (Found s ctx ρ pk e) := by
  intro w₁ w₂ h
  have hsame : view tid w₁.rows = view tid w₂.rows := hρ _ _ h
  rw [findChecked_view hmro htid, findChecked_view hmro htid]
  cases hview : (view tid w₁.rows).get? pk with
  | none =>
    rw [← hsame, hview]
    exact .inr ⟨_, rfl, rfl⟩
  | some e =>
    have hview₂ : (view tid w₂.rows).get? pk = some e := by rw [← hsame, hview]
    rw [hview₂]
    dsimp only
    cases hcheck : checkEntity ctx pk e s.cls.mro with
    | error err => exact .inr ⟨err, rfl, rfl⟩
    | ok =>
      exact .inl ⟨e, w₁, w₂, rfl, rfl, h, (get?_view.mp hview).1, (get?_view.mp hview₂).1,
        checkEntity_ok_iff.mp hcheck⟩

theorem get_respects : Respects (OnRows (SameView tid)) (s.get pk ctx) fun _ =>
    OnRows (SameView tid) := by
  refine preCheck_respects.bind fun _ => ?_
  refine (findChecked_respects hmro htid fun _ _ h => h).bind fun e => ?_
  refine note_respects.bind fun _ => authorize_respects.bind fun _ => ?_
  exact .pure fun _ _ h => h.related

omit [DecidableEq PK] in
theorem list_respects {params : QueryParams} :
    Respects (OnRows (SameView tid)) (s.list params ctx) fun _ => OnRows (SameView tid) := by
  refine authorize_respects.bind fun _ => .lift_bind fun narrowed hscoped => ?_
  exact (query_respects hmro htid _ hscoped).bind fun _ => pure_respects

omit [DecidableEq PK] in
theorem count_respects {params : QueryParams} :
    Respects (OnRows (SameView tid)) (s.count params ctx) fun _ => OnRows (SameView tid) := by
  refine authorize_respects.bind fun _ => .lift_bind fun narrowed hscoped => ?_
  exact query_respects hmro htid length hscoped

omit hmro htid in
variable (tid) in
theorem save_respects {e : Entity V}
    (hρ : ∀ rows₁ rows₂, ρ rows₁ rows₂ → e.tenantId = some tid ∧ SameView tid rows₁ rows₂ ∧
      Own tid rows₁ pk ∧ Own tid rows₂ pk) :
    Respects (OnRows ρ) (save pk e : ServiceM PK V R PUnit) fun _ => OnRows (SameView tid) := by
  refine .modify fun w₁ w₂ h => ?_
  obtain ⟨he, hsame, hown₁, hown₂⟩ := hρ _ _ h
  change view tid (w₁.rows.set pk e) = view tid (w₂.rows.set pk e)
  rw [view_set hown₁ he, view_set hown₂ he, show view tid _ = _ from hsame]

theorem create_respects {dto : C} :
    Respects (OnRows fun rows₁ rows₂ => SameView tid rows₁ rows₂ ∧ rows₁.get? pk = none ∧
      rows₂.get? pk = none) (s.create dto pk ctx) fun _ => OnRows (SameView tid) := by
  refine preCheck_respects.bind fun _ => authorize_respects.bind fun _ => ?_
  refine .lift_bind fun e hprepared => ?_
  have he : e.tenantId = some tid := by
    rw [← htid]
    have hrow : s.Prepared ctx (dto, pk) (pk, e) := ⟨rfl, hprepared⟩
    exact prepared_tenantId hmro hrow
  refine (save_respects tid fun _ _ h => ?_).bind fun _ => ?_
  · exact ⟨he, h.1, own_of_none h.2.1, own_of_none h.2.2⟩
  · exact note_respects.bind fun _ => note_respects.bind fun _ => pure_respects

/-- The row that is found is the tenant's, in both runs. -/
theorem Found.own {e : Entity V} {rows₁ rows₂ : Dict PK (Entity V)}
    (h : Found s ctx ρ pk e rows₁ rows₂) :
    e.tenantId = some tid ∧ Own tid rows₁ pk ∧ Own tid rows₂ pk := by
  have he : e.tenantId = some tid := (h.visible.tenant hmro).2.trans htid
  exact ⟨he, own_of_get? h.left he, own_of_get? h.right he⟩

theorem update_respects {dto : U} :
    Respects (OnRows fun rows₁ rows₂ => SameView tid rows₁ rows₂ ∧
      Meets s ctx rows₁ (.update pk dto)) (s.update pk dto ctx) fun _ =>
        OnRows (SameView tid) := by
  refine preCheck_respects.bind fun _ => ?_
  refine (findChecked_respects hmro htid fun _ _ h => h.1).bind fun e => ?_
  refine note_respects.bind fun _ => authorize_respects.bind fun _ => ?_
  refine (save_respects tid fun rows₁ rows₂ h => ?_).bind fun _ => ?_
  · obtain ⟨he, hown⟩ := h.own hmro htid
    exact ⟨(h.related.2 e h.left h.visible).trans he, h.related.1, hown⟩
  · exact note_respects.bind fun _ => note_respects.bind fun _ => pure_respects

theorem softDelete_respects {now : ℤ} :
    Respects (OnRows (SameView tid)) (s.softDelete pk now ctx) fun _ =>
      OnRows (SameView tid) := by
  refine (findChecked_respects hmro htid fun _ _ h => h).bind fun e => ?_
  refine authorize_respects.bind fun _ => save_respects tid fun rows₁ rows₂ h => ?_
  obtain ⟨he, hown⟩ := h.own hmro htid
  exact ⟨he, h.related, hown⟩

omit hmro htid in
theorem erase_respects (pks : List PK)
    (hρ : ∀ rows₁ rows₂, ρ rows₁ rows₂ → SameView tid rows₁ rows₂) :
    Respects (OnRows ρ)
      (modifyRows fun rows => pks.foldl (fun rows pk => rows.erase pk) rows : ServiceM PK V R PUnit)
      fun _ => OnRows (SameView tid) := by
  refine .modify fun w₁ w₂ h => ?_
  change view tid (pks.foldl _ w₁.rows) = view tid (pks.foldl _ w₂.rows)
  rw [foldl_erase_view, foldl_erase_view, show view tid w₁.rows = _ from hρ _ _ h]

theorem baseDelete_respects :
    Respects (OnRows (SameView tid)) (s.baseDelete pk ctx) fun _ => OnRows (SameView tid) := by
  refine preCheck_respects.bind fun _ => ?_
  refine (findChecked_respects hmro htid fun _ _ h => h).bind fun e => ?_
  refine note_respects.bind fun _ => authorize_respects.bind fun _ => ?_
  have herase : Respects (OnRows (Found s ctx (SameView tid) pk e))
      (modifyRows (·.erase pk) : ServiceM PK V R PUnit) fun _ => OnRows (SameView tid) :=
    erase_respects [pk] fun _ _ h => h.related
  exact herase.bind fun _ => afterDeletion_respects

theorem delete_respects {now : ℤ} :
    Respects (OnRows (SameView tid)) (s.delete pk now ctx) fun _ => OnRows (SameView tid) := by
  unfold delete
  split_ifs
  · exact softDelete_respects hmro htid
  · exact baseDelete_respects hmro htid

theorem deleteMany_respects {pks : List PK} :
    Respects (OnRows (SameView tid)) (s.deleteMany pks ctx) fun _ => OnRows (SameView tid) := by
  unfold deleteMany bulkDeleteMany
  split_ifs
  · exact pure_respects
  · refine preCheck_respects.bind fun _ => ?_
    refine (Respects.mapM fun pk _ => ?_).bind fun _ => ?_
    · refine (findChecked_respects hmro htid fun _ _ h => h).bind fun e => ?_
      exact note_respects.bind fun _ => authorize_respects.weaken fun _ _ _ h => h.related
    · refine (erase_respects pks fun _ _ h => h).bind fun _ => ?_
      exact (Respects.mapM fun _ _ => afterDeletion_respects).bind fun _ => pure_respects
  · exact lift_respects

theorem insert_respects {dtos : List (C × PK)} {l : List (PK × Entity V)} :
    Respects (OnRows fun rows₁ rows₂ => (SameView tid rows₁ rows₂ ∧
        (∀ pk ∈ dtos.map Prod.snd, rows₁.get? pk = none) ∧
          ∀ pk ∈ dtos.map Prod.snd, rows₂.get? pk = none) ∧ List.Forall₂ (s.Prepared ctx) dtos l)
      (modifyRows fun rows => l.foldl (fun rows row => rows.set row.1 row.2) rows :
        ServiceM PK V R PUnit)
      fun _ => OnRows (SameView tid) := by
  refine .modify fun w₁ w₂ h => ?_
  obtain ⟨⟨hsame, hfresh₁, hfresh₂⟩, hprepared⟩ := h
  have hkey : ∀ row ∈ l, row.1 ∈ dtos.map Prod.snd := by
    intro row hm
    rw [← prepared_keys hprepared]
    exact mem_map_of_mem hm
  have htenant : ∀ row ∈ l, row.2.tenantId = some tid := by
    intro row hm
    obtain ⟨dto, -, hrow⟩ := prepared_of_mem hprepared hm
    exact (prepared_tenantId hmro hrow).trans htid
  change view tid (l.foldl _ w₁.rows) = view tid (l.foldl _ w₂.rows)
  rw [foldl_set_own (fun row hm => own_of_none (hfresh₁ _ (hkey row hm))) htenant,
    foldl_set_own (fun row hm => own_of_none (hfresh₂ _ (hkey row hm))) htenant,
    show view tid w₁.rows = _ from hsame]

theorem createMany_respects {dtos : List (C × PK)} :
    Respects (OnRows fun rows₁ rows₂ => SameView tid rows₁ rows₂ ∧
        (∀ pk ∈ dtos.map Prod.snd, rows₁.get? pk = none) ∧
          ∀ pk ∈ dtos.map Prod.snd, rows₂.get? pk = none)
      (s.createMany dtos ctx) fun _ => OnRows (SameView tid) := by
  unfold createMany bulkCreateMany
  split_ifs
  · exact .pure fun _ _ h => h.1
  · refine preCheck_respects.bind fun _ => authorize_respects.bind fun _ => ?_
    refine prepareDtos_respects.bind fun l => ?_
    refine (insert_respects hmro htid).bind fun _ => ?_
    refine (Respects.mapM fun row _ => ?_).bind fun _ => pure_respects
    exact note_respects.bind fun _ => note_respects
  · exact lift_respects.weaken fun _ _ _ h => h.1

/-- The row under `pk` is the tenant's in both runs, if there is one. -/
def BothOwn (tid : String) (pk : PK) (rows₁ rows₂ : Dict PK (Entity V)) : Prop :=
  SameView tid rows₁ rows₂ ∧ Own tid rows₁ pk ∧ Own tid rows₂ pk

omit hmro htid in
theorem findById_respects :
    Respects (OnRows (BothOwn tid pk)) (findById pk : ServiceM PK V R _) fun found =>
      OnRows fun rows₁ rows₂ => BothOwn tid pk rows₁ rows₂ ∧ rows₁.get? pk = found := by
  intro w₁ w₂ h
  have hsame : w₂.rows.get? pk = w₁.rows.get? pk := by
    rw [← get?_view_of_own h.2.1, ← get?_view_of_own h.2.2, show view tid w₁.rows = _ from h.1]
  exact .inl ⟨w₁.rows.get? pk, w₁, w₂, rfl, by rw [← hsame]; rfl, h, rfl⟩

omit hmro htid in
theorem softRestore_respects :
    Respects (OnRows (BothOwn tid pk)) (s.softRestore pk ctx) fun _ =>
      OnRows (SameView tid) := by
  refine findById_respects.bind fun found => ?_
  cases found with
  | none => exact lift_respects.weaken fun _ _ _ h => h.1.1
  | some e =>
    refine authorize_respects.bind fun _ => ?_
    refine (save_respects tid fun rows₁ rows₂ h => ?_).bind fun _ => pure_respects
    exact ⟨of_decide_eq_true (h.1.2.1 e h.2), h.1⟩

/-- What two runs have in common before a call of the tenant. -/
structure Twin (s : Service PK V C R U) (ctx : Auth.AuthContext) (tid : String) (call : Call PK C U)
    (rows₁ rows₂ : Dict PK (Entity V)) : Prop where
  same : SameView tid rows₁ rows₂
  fresh₁ : call.Fresh rows₁
  fresh₂ : call.Fresh rows₂
  meets₁ : Meets s ctx rows₁ call
  meets₂ : Meets s ctx rows₂ call

omit hmro in
theorem own_of_meets {rows : Dict PK (Entity V)} (hsoft : .softDelete ∈ s.cls.mro)
    (h : Meets s ctx rows (.restore pk)) : Own tid rows pk := fun e hfound =>
  decide_eq_true ((h hsoft e hfound).trans htid)

/-- **A call of the tenant has the same answer**, and leaves the same rows of the tenant. -/
theorem perform_respects {call : Call PK C U} :
    Respects (OnRows (Twin s ctx tid call)) (s.perform ctx call) fun _ =>
      OnRows (SameView tid) := by
  cases call with
  | get pk =>
    exact ((get_respects hmro htid).mono_left fun _ _ h => h.same).bind fun _ => pure_respects
  | list params | stream params =>
    exact ((list_respects hmro htid).mono_left fun _ _ h => h.same).bind fun _ => pure_respects
  | count params =>
    exact ((count_respects hmro htid).mono_left fun _ _ h => h.same).bind fun _ => pure_respects
  | create dto pk =>
    refine ((create_respects hmro htid).mono_left fun _ _ h => ?_).bind fun _ => pure_respects
    exact ⟨h.same, h.fresh₁.2 pk mem_cons_self, h.fresh₂.2 pk mem_cons_self⟩
  | createMany dtos =>
    refine ((createMany_respects hmro htid).mono_left fun _ _ h => ?_).bind fun _ =>
      pure_respects
    exact ⟨h.same, h.fresh₁.2, h.fresh₂.2⟩
  | update pk dto | patch pk dto =>
    refine ((update_respects hmro htid).mono_left fun _ _ h => ?_).bind fun _ => pure_respects
    exact ⟨h.same, h.meets₁⟩
  | delete pk now =>
    exact ((delete_respects hmro htid).mono_left fun _ _ h => h.same).bind fun _ => pure_respects
  | deleteMany pks =>
    exact ((deleteMany_respects hmro htid).mono_left fun _ _ h => h.same).bind fun _ =>
      pure_respects
  | restore pk =>
    unfold perform restore
    dsimp only
    split_ifs with hsoft
    · refine (softRestore_respects.mono_left fun _ _ h => ?_).bind fun _ => pure_respects
      exact ⟨h.same, own_of_meets htid hsoft h.meets₁, own_of_meets htid hsoft h.meets₂⟩
    · exact (lift_respects.weaken fun _ _ _ h => h.same).bind fun _ => pure_respects

def Orderly (s : Service PK V C R U) (_ : List (Event PK C R U)) (w : World PK V R)
    (a : Event PK C R U) : Prop :=
  Meets s a.ctx w.rows a.call

def Event.request (a : Event PK C R U) : Auth.AuthContext × Call PK C U := (a.ctx, a.call)

def answers (tid : String) (l : List (Event PK C R U)) : List (Event PK C R U) :=
  l.filter fun a => a.ctx.tenantId = some tid

def requests (tid : String) (l : List (Event PK C R U)) : List (Auth.AuthContext × Call PK C U) :=
  (answers tid l).map Event.request

section

variable {l : List (Event PK C R U)} {a : Event PK C R U}

omit [DecidableEq PK] hmro htid in
theorem answers_append_foreign (h : a.ctx.tenantId ≠ some tid) :
    answers tid (l ++ [a]) = answers tid l := by
  rw [answers, filter_append, filter_cons_of_neg (by simpa using h), filter_nil,
    append_nil, ← answers]

omit [DecidableEq PK] hmro htid in
theorem answers_append_own (h : a.ctx.tenantId = some tid) :
    answers tid (l ++ [a]) = answers tid l ++ [a] := by
  rw [answers, filter_append, filter_cons_of_pos (by simpa using h), filter_nil,
    ← answers]

omit [DecidableEq PK] hmro htid in
theorem requests_append_foreign (h : a.ctx.tenantId ≠ some tid) :
    requests tid (l ++ [a]) = requests tid l := by
  rw [requests, answers_append_foreign h, ← requests]

omit [DecidableEq PK] hmro htid in
theorem requests_append_own (h : a.ctx.tenantId = some tid) :
    requests tid (l ++ [a]) = requests tid l ++ [a.request] := by
  rw [requests, answers_append_own h, map_append, ← requests, map_singleton]

end

end

section

variable [DecidableEq PK] (hmro : .tenantAware ∈ s.cls.mro) {w₁ w₂ w₁' w₂' : World PK V R}
  {l₁ l₂ : List (Event PK C R U)} {a b : Event PK C R U}

include hmro

omit hmro in
theorem step_fresh (h : s.Step w a w') : a.call.Fresh w.rows := by
  cases h with
  | returned hfresh | raised hfresh => exact hfresh

omit hmro in
theorem step_returned {reply : Reply R} (h : s.Step w a w₁)
    (hp : s.perform a.ctx a.call w = .ok (reply, w')) : a.answer = .ok reply ∧ w₁ = w' := by
  cases h with
  | returned _ hperform =>
    rw [hp] at hperform
    cases hperform
    exact ⟨rfl, rfl⟩
  | raised _ hperform =>
    rw [hp] at hperform
    cases hperform

omit hmro in
theorem step_raised {e : ServiceError PK} (h : s.Step w a w')
    (hp : s.perform a.ctx a.call w = .error e) : a.answer = .error e ∧ w' = w := by
  cases h with
  | returned _ hperform =>
    rw [hp] at hperform
    cases hperform
  | raised _ hperform =>
    rw [hp] at hperform
    cases hperform
    exact ⟨rfl, rfl⟩

/-- A call of another tenant leaves the rows of this one. -/
theorem step_foreign (h : s.Step w a w') (hmeets : Meets s a.ctx w.rows a.call)
    (htid : a.ctx.tenantId ≠ some tid) : SameView tid w'.rows w.rows := by
  cases h with
  | returned hfresh hperform =>
    exact effect_keeps hmro (perform_effect hperform) hfresh hmeets htid
  | raised => rfl

theorem step_own (h₁ : s.Step w₁ a w₁') (h₂ : s.Step w₂ b w₂')
    (hmeets₁ : Meets s a.ctx w₁.rows a.call) (hmeets₂ : Meets s b.ctx w₂.rows b.call)
    (hreq : a.request = b.request) (htid : a.ctx.tenantId = some tid)
    (hsame : SameView tid w₁.rows w₂.rows) : a = b ∧ SameView tid w₁'.rows w₂'.rows := by
  obtain ⟨ctx, call, answer₁⟩ := a
  obtain ⟨_, _, answer₂⟩ := b
  obtain ⟨rfl, rfl⟩ := Prod.mk.inj hreq
  have htwin : Twin s ctx tid call w₁.rows w₂.rows :=
    ⟨hsame, step_fresh h₁, step_fresh h₂, hmeets₁, hmeets₂⟩
  obtain ⟨reply, t₁, t₂, hp₁, hp₂, ht⟩ | ⟨e, hp₁, hp₂⟩ :=
    perform_respects hmro htid w₁ w₂ htwin
  · obtain ⟨rfl, rfl⟩ := step_returned h₁ hp₁
    obtain ⟨rfl, rfl⟩ := step_returned h₂ hp₂
    exact ⟨rfl, ht⟩
  · obtain ⟨rfl, rfl⟩ := step_raised h₁ hp₁
    obtain ⟨rfl, rfl⟩ := step_raised h₂ hp₂
    exact ⟨rfl, hsame⟩

/-- The answers to a tenant's calls, and its rows, in two runs. -/
theorem answers_eq (h₁ : Guarded s.Step (Orderly s) w₁ l₁ w₁')
    (h₂ : Guarded s.Step (Orderly s) w₂ l₂ w₂') (hsame : SameView tid w₁.rows w₂.rows)
    (hreq : requests tid l₁ = requests tid l₂) :
    answers tid l₁ = answers tid l₂ ∧ SameView tid w₁'.rows w₂'.rows := by
  -- a call of another tenant at the end of either run is left off first
  induction h₁ generalizing l₂ w₂' with
  | nil =>
    induction h₂ with
    | nil => exact ⟨rfl, hsame⟩
    | @snoc l t t' a h₂ hmeets hst ih =>
      by_cases htid : a.ctx.tenantId = some tid
      · rw [requests_append_own htid] at hreq
        exact absurd hreq.symm (append_ne_nil_of_right_ne_nil _ (cons_ne_nil _ _))
      · rw [requests_append_foreign htid] at hreq
        obtain ⟨hanswers, hview⟩ := ih hreq
        rw [answers_append_foreign htid]
        exact ⟨hanswers, hview.trans (step_foreign hmro hst hmeets htid).symm⟩
  | @snoc l t t' a h₁ hmeets hst ih =>
    by_cases htid : a.ctx.tenantId = some tid
    · rw [requests_append_own htid] at hreq
      induction h₂ with
      | nil => exact absurd hreq (append_ne_nil_of_right_ne_nil _ (cons_ne_nil _ _))
      | @snoc m u u' b h₂ hmeets₂ hst₂ ih₂ =>
        by_cases htid₂ : b.ctx.tenantId = some tid
        · rw [requests_append_own htid₂] at hreq
          obtain ⟨hinit, hlast⟩ := append_inj' hreq rfl
          obtain ⟨hanswers, hview⟩ := ih h₂ hinit
          obtain ⟨rfl, hview'⟩ := step_own hmro hst hst₂ hmeets hmeets₂ (List.cons.inj hlast).1
            htid hview
          rw [answers_append_own htid, answers_append_own htid, hanswers]
          exact ⟨rfl, hview'⟩
        · rw [requests_append_foreign htid₂] at hreq
          obtain ⟨hanswers, hview⟩ := ih₂ hreq
          rw [answers_append_foreign htid₂]
          exact ⟨hanswers, hview.trans (step_foreign hmro hst₂ hmeets₂ htid₂).symm⟩
    · rw [requests_append_foreign htid] at hreq
      obtain ⟨hanswers, hview⟩ := ih h₂ hreq
      rw [answers_append_foreign htid]
      exact ⟨hanswers, (step_foreign hmro hst hmeets htid).trans hview⟩

/-- What is promised of a call: the rows of other tenants are as before, and the data that it
returns are of rows of the caller's tenant. -/
structure Isolated (s : Service PK V C R U) (w : World PK V R) (a : Event PK C R U)
    (w' : World PK V R) : Prop where
  keeps : ∀ tid, a.ctx.tenantId ≠ some tid → SameView tid w'.rows w.rows
  own : ∀ reply, a.answer = .ok reply → ∀ r ∈ reply.data, OwnData s a.ctx w'.rows r

theorem isolated_step (h : s.Step w a w') (hmeets : Meets s a.ctx w.rows a.call) :
    Isolated s w a w' where
  keeps _ htid := step_foreign hmro h hmeets htid
  own reply hanswer r hr := by
    cases h with
    | returned hfresh hperform =>
      cases hanswer
      exact effect_own hmro (perform_effect hperform) hfresh hmeets hr
    | raised => cases hanswer

/-- **Tenants are isolated in a run that restores and moves no foreign entity**: a call changes and
returns nothing of another tenant, and the answers to a tenant's calls are the same whatever the
rows and the calls of the others are. -/
theorem tenants_isolated (h₁ : Guarded s.Step (Orderly s) w₁ l₁ w₁') :
    (∀ l a l', l₁ = l ++ a :: l' → ∃ t t', Run s.Step w₁ l t ∧ s.Step t a t' ∧
      Run s.Step t' l' w₁' ∧ Isolated s t a t') ∧
    ∀ tid w₂ l₂ w₂', Guarded s.Step (Orderly s) w₂ l₂ w₂' → SameView tid w₁.rows w₂.rows →
      requests tid l₁ = requests tid l₂ → answers tid l₁ = answers tid l₂ := by
  refine ⟨?_, fun tid w₂ l₂ w₂' h₂ hsame hreq => (answers_eq hmro h₁ h₂ hsame hreq).1⟩
  rintro l a l' rfl
  obtain ⟨t, t', hrun, hmeets, hst, -, hrun'⟩ := h₁.at_label
  exact ⟨t, t', hrun.run, hst, hrun', isolated_step hmro hst hmeets⟩

end

def tenantMemos : Service ℕ String String (ℕ × String) String :=
  memos [.tenantAware, .softDelete, .bulk]

/-- **A caller of tenant A restores tenant B's entity**, and gets its data. -/
theorem restore_crosses : ∃ t t',
    Run tenantMemos.Step {} [⟨callerOf "B", .create "memo" 1, .ok (.dto (1, "memo"))⟩,
      ⟨callerOf "B", .delete 1 5, .ok .none⟩] t ∧
    tenantMemos.Step t ⟨callerOf "A", .restore 1, .ok (.dto (1, "memo"))⟩ t' ∧
    ¬ Isolated tenantMemos t ⟨callerOf "A", .restore 1, .ok (.dto (1, "memo"))⟩ t' := by
  refine ⟨_, _, .cons (.returned (fresh_create rfl) rfl)
    (.cons (.returned (fresh_of_inserted rfl) rfl) (.nil _)),
    .returned (fresh_of_inserted rfl) rfl, fun h => ?_⟩
  have hkeeps := congrArg (fun rows => rows.get? 1) (h.keeps "B" (by decide))
  exact absurd hkeeps (by decide)

/-- Tenant B creates, deletes and restores a memo, which tenant A does not find: tenant A is
answered as if tenant B did not exist. -/
theorem tenants_isolated_memos :
    answers "A" ([⟨callerOf "B", .create "memo" 1, .ok (.dto (1, "memo"))⟩,
        ⟨callerOf "B", .delete 1 5, .ok .none⟩,
        ⟨callerOf "B", .restore 1, .ok (.dto (1, "memo"))⟩,
        ⟨callerOf "A", .get 1, .error (.notFound 1)⟩] :
          List (Event ℕ String (ℕ × String) String)) =
      answers "A" [⟨callerOf "A", .get 1, .error (.notFound 1)⟩] := by
  obtain ⟨w, hrun⟩ : ∃ w, Guarded tenantMemos.Step (Orderly tenantMemos) {}
      [⟨callerOf "B", .create "memo" 1, .ok (.dto (1, "memo"))⟩,
        ⟨callerOf "B", .delete 1 5, .ok .none⟩,
        ⟨callerOf "B", .restore 1, .ok (.dto (1, "memo"))⟩,
        ⟨callerOf "A", .get 1, .error (.notFound 1)⟩] w := by
    refine ⟨_, .snoc (.snoc (.snoc (.snoc .nil ?_ (.returned (fresh_create rfl) rfl)) ?_
      (.returned (fresh_of_inserted rfl) rfl)) ?_
      (.returned (fresh_of_inserted rfl) rfl)) ?_
      (.raised (fresh_of_inserted rfl) rfl)⟩
    · trivial
    · trivial
    · rintro - e he
      cases he
      rfl
    · trivial
  have halone : Guarded tenantMemos.Step (Orderly tenantMemos) {}
      [⟨callerOf "A", .get 1, .error (.notFound 1)⟩] {} :=
    .snoc .nil trivial (.raised (fresh_of_inserted rfl) rfl)
  exact (tenants_isolated (by decide) hrun).2 "A" _ _ _ halone rfl rfl

end AsyncService

end Varco
