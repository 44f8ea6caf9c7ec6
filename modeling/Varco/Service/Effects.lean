import Varco.Service.Hooks

/-!
# What a call does that returns

For each operation of a service, what has held where it returns, what it returns, and the rows that
it leaves. An operation that raises leaves everything as it was, by its type.
-/

namespace Varco

open List

namespace AsyncService

open Atomic

variable {PK V C R U : Type} {s : Service PK V C R U} {w w' : World PK V R} {ctx : Auth.AuthContext}
  {pk : PK} {e : Entity V} {u : PUnit}

theorem note_ok {t : Trace PK R} : note t w = .ok (u, w') ↔
    w' = { w with trace := w.trace ++ [t] } := modify_ok

theorem modifyRows_ok {f : Dict PK (Entity V) → Dict PK (Entity V)} :
    modifyRows f w = .ok (u, w') ↔ w' = { w with rows := f w.rows } := modify_ok

namespace Service

theorem authorize_ok {action : Action} {resource : Option (PK × Entity V)} :
    s.authorize ctx action resource w = .ok (u, w') ↔
      s.authorizer ctx action resource = .ok u ∧ w' = w := lift_ok

theorem preCheck_ok (h : s.preCheck ctx w = .ok (u, w')) :
    HasTenant s.cls.mro ctx ∧ w' = { w with trace := w.trace ++ [.preCheck] } := by
  obtain ⟨_, w₁, h₁, h₂⟩ := bind_ok.mp h
  obtain ⟨hcheck, rfl⟩ := lift_ok.mp h₂
  exact ⟨preCheckChain_ok_iff.mp hcheck, note_ok.mp h₁⟩

variable {params : QueryParams}

theorem refuses_ok {α : Type} {a b : α} :
    (match s.repository.refuses params with
      | some e => .error (.query e)
      | none => .ok (a, w) : Except (ServiceError PK) (α × World PK V R)) = .ok (b, w') ↔
      s.repository.refuses params = none ∧ b = a ∧ w' = w := by
  cases s.repository.refuses params with
  | none =>
    dsimp only
    rw [and_iff_right rfl, Except.ok.injEq, Prod.mk.injEq, eq_comm, eq_comm (a := w)]
  | some e => exact iff_of_false (fun h => by cases h) fun h => by cases h.1

theorem findByQuery_ok {found : List (PK × Entity V)} :
    s.findByQuery params w = .ok (found, w') ↔ s.repository.refuses params = none ∧
      found = s.repository.page params (s.matching params w.rows) ∧ w' = w := refuses_ok

theorem countRows_ok {n : ℕ} :
    s.countRows params w = .ok (n, w') ↔ s.repository.refuses params = none ∧
      n = (s.matching params w.rows).length ∧ w' = w := refuses_ok

theorem afterDeletion_ok : afterDeletion ctx pk w = .ok (u, w') ↔
    w' = { w with
      trace := w.trace ++ [.published (.deleted pk (eventTenant ctx)), .afterDelete pk] } := by
  unfold afterDeletion
  rw [bind_ok]
  constructor
  · rintro ⟨_, w₁, h₁, h₂⟩
    obtain rfl := note_ok.mp h₁
    obtain rfl := note_ok.mp h₂
    simp
  · rintro rfl
    exact ⟨⟨⟩, _, note_ok.mpr rfl, note_ok.mpr (by simp)⟩

/-- **`list` returns the data of entities that the caller sees.** -/
theorem list_ok {dtos : List R} (h : s.list params ctx w = .ok (dtos, w')) :
    ∃ narrowed, scopedParams PK s.cls ctx s.cls.mro params = .ok narrowed ∧
      dtos = (s.repository.page narrowed (s.matching narrowed w.rows)).map
        (fun row => s.assembler.toReadDto row.1 row.2) ∧ w' = w := by
  obtain ⟨_, w₁, h₁, h⟩ := bind_ok.mp h
  obtain ⟨narrowed, w₂, h₂, h⟩ := bind_ok.mp h
  obtain ⟨found, w₃, h₃, h⟩ := bind_ok.mp h
  obtain ⟨-, rfl⟩ := authorize_ok.mp h₁
  obtain ⟨hscoped, rfl⟩ := lift_ok.mp h₂
  obtain ⟨-, rfl, rfl⟩ := findByQuery_ok.mp h₃
  obtain ⟨rfl, rfl⟩ := pure_ok.mp h
  exact ⟨narrowed, hscoped, rfl, rfl⟩

theorem count_ok {n : ℕ} (h : s.count params ctx w = .ok (n, w')) :
    ∃ narrowed, scopedParams PK s.cls ctx s.cls.mro params = .ok narrowed ∧
      n = (s.matching narrowed w.rows).length ∧ w' = w := by
  obtain ⟨_, w₁, h₁, h⟩ := bind_ok.mp h
  obtain ⟨narrowed, w₂, h₂, h₃⟩ := bind_ok.mp h
  obtain ⟨-, rfl⟩ := authorize_ok.mp h₁
  obtain ⟨hscoped, rfl⟩ := lift_ok.mp h₂
  obtain ⟨-, rfl, rfl⟩ := countRows_ok.mp h₃
  exact ⟨narrowed, hscoped, rfl, rfl⟩

theorem mapM_afterDeletion_ok {pks : List PK} {l : List PUnit}
    (h : pks.mapM (afterDeletion ctx) w = .ok (l, w')) :
    w'.rows = w.rows ∧ w'.trace = w.trace ++ pks.flatMap fun pk =>
      [Trace.published (.deleted pk (eventTenant ctx)), .afterDelete pk] := by
  induction pks generalizing w l with
  | nil =>
    obtain ⟨-, rfl⟩ := mapM_nil_ok h
    exact ⟨rfl, by simp⟩
  | cons pk pks ih =>
    obtain ⟨_, w₁, rest, h₁, h₂, rfl⟩ := mapM_cons_ok h
    obtain rfl := afterDeletion_ok.mp h₁
    obtain ⟨hrows, htrace⟩ := ih h₂
    exact ⟨hrows, by rw [htrace]; simp⟩

def Prepared (s : Service PK V C R U) (ctx : Auth.AuthContext) (dto : C × PK)
    (row : PK × Entity V) :
    Prop :=
  row.1 = dto.2 ∧
    prepareForCreate PK ctx s.cls.mro (s.assembler.toDomain dto.1) = .ok row.2

variable {rows : List (PK × Entity V)} {dtos : List (C × PK)}

theorem prepared_of_mem
    (h : List.Forall₂ (Prepared s ctx) dtos rows) {row : PK × Entity V} (hm : row ∈ rows) :
    ∃ dto ∈ dtos, Prepared s ctx dto row := by
  induction h with
  | nil => exact absurd hm not_mem_nil
  | @cons dto row' _ _ hprepared _ ih =>
    rcases mem_cons.mp hm with rfl | hm
    · exact ⟨dto, mem_cons_self, hprepared⟩
    · obtain ⟨dto', hdto, hprepared'⟩ := ih hm
      exact ⟨dto', mem_cons_of_mem _ hdto, hprepared'⟩

theorem prepared_keys
    (h : List.Forall₂ (Prepared s ctx) dtos rows) : rows.map Prod.fst = dtos.map Prod.snd := by
  induction h with
  | nil => rfl
  | cons hprepared _ ih => rw [map_cons, map_cons, ih, hprepared.1]

theorem prepared_tenantId {dto : C × PK} {row : PK × Entity V} (hmro : .tenantAware ∈ s.cls.mro)
    (h : Prepared s ctx dto row) : row.2.tenantId = ctx.tenantId := by
  rw [(prepareForCreate_ok h.2).2.1, if_pos hmro]

theorem mapM_prepareDto_ok
    (h : dtos.mapM (s.prepareDto ctx) w = .ok (rows, w')) :
    List.Forall₂ (Prepared s ctx) dtos rows ∧ w' = w := by
  induction dtos generalizing w rows with
  | nil =>
    obtain ⟨rfl, rfl⟩ := mapM_nil_ok h
    exact ⟨.nil, rfl⟩
  | cons dto dtos ih =>
    obtain ⟨row, w₁, rest, h₁, h₂, rfl⟩ := mapM_cons_ok h
    obtain ⟨e, w₂, hlift, hpure⟩ := bind_ok.mp h₁
    obtain ⟨hprepare, rfl⟩ := lift_ok.mp hlift
    obtain ⟨rfl, rfl⟩ := pure_ok.mp hpure
    obtain ⟨hrest, rfl⟩ := ih h₂
    exact ⟨.cons ⟨rfl, hprepare⟩ hrest, rfl⟩

theorem mapM_created_ok {l : List PUnit} (h : rows.mapM (fun row => (do
      publish (.created row.1 (eventTenant ctx) (s.assembler.toReadDto row.1 row.2))
      note (.afterCreate row.1) : ServiceM PK V R PUnit)) w = .ok (l, w')) : w'.rows = w.rows := by
  induction rows generalizing w l with
  | nil =>
    obtain ⟨-, rfl⟩ := mapM_nil_ok h
    rfl
  | cons row rows ih =>
    obtain ⟨_, w₁, rest, h₁, h₂, rfl⟩ := mapM_cons_ok h
    obtain ⟨_, w₂, hpublish, hnote⟩ := bind_ok.mp h₁
    obtain rfl := note_ok.mp hpublish
    obtain rfl := note_ok.mp hnote
    have hrows := ih h₂
    exact hrows

end Service

variable [DecidableEq PK]

theorem save_ok : save pk e w = .ok (u, w') ↔
    w' = { w with rows := w.rows.set pk e } := modify_ok

theorem findById_ok {found : Option (Entity V)} : findById pk w = .ok (found, w') ↔
    found = w.rows.get? pk ∧ w' = w := by
  change Except.ok (w.rows.get? pk, w) = _ ↔ _
  rw [Except.ok.injEq, Prod.mk.injEq, eq_comm, eq_comm (a := w)]

namespace Service

/-- An entity that is found and passes the check of the class. -/
theorem findChecked_ok : s.findChecked pk ctx w = .ok (e, w') ↔
    (w.rows.get? pk = some e ∧ Visible s.cls.mro ctx e) ∧ w' = w := by
  unfold findChecked
  rw [bind_ok]
  constructor
  · rintro ⟨found, w₁, hfind, h⟩
    obtain ⟨hfound, rfl⟩ := findById_ok.mp hfind
    cases found with
    | none => cases (lift_ok.mp h).1
    | some e' =>
      obtain ⟨_, w₂, hlift, hpure⟩ := bind_ok.mp h
      obtain ⟨hcheck, rfl⟩ := lift_ok.mp hlift
      obtain ⟨rfl, rfl⟩ := pure_ok.mp hpure
      exact ⟨⟨hfound.symm, checkEntity_ok_iff.mp hcheck⟩, rfl⟩
  · rintro ⟨⟨hfound, hvisible⟩, rfl⟩
    refine ⟨some e, w', findById_ok.mpr ⟨hfound.symm, rfl⟩, ?_⟩
    exact bind_ok.mpr ⟨(), w', lift_ok.mpr ⟨checkEntity_ok_iff.mpr hvisible, rfl⟩,
      pure_ok.mpr ⟨rfl, rfl⟩⟩

/-- **`get` returns the data of an entity that the caller sees.** -/
theorem get_ok {r : R} (h : s.get pk ctx w = .ok (r, w')) :
    ∃ e, w.rows.get? pk = some e ∧ Visible s.cls.mro ctx e ∧
      s.authorizer ctx .read (some (pk, e)) = .ok () ∧ r = s.assembler.toReadDto pk e ∧
        w'.rows = w.rows := by
  obtain ⟨_, w₁, h₁, h⟩ := bind_ok.mp h
  obtain ⟨e, w₂, h₂, h⟩ := bind_ok.mp h
  obtain ⟨_, w₃, h₃, h⟩ := bind_ok.mp h
  obtain ⟨_, w₄, h₄, h⟩ := bind_ok.mp h
  obtain ⟨-, rfl⟩ := preCheck_ok h₁
  obtain ⟨⟨hfound, hvisible⟩, rfl⟩ := findChecked_ok.mp h₂
  obtain rfl := note_ok.mp h₃
  obtain ⟨hauth, rfl⟩ := authorize_ok.mp h₄
  obtain ⟨rfl, rfl⟩ := pure_ok.mp h
  exact ⟨e, hfound, hvisible, hauth, rfl, rfl⟩

theorem mem_matching {params : QueryParams} {rows : Dict PK (Entity V)} :
    (pk, e) ∈ s.matching params rows ↔
      rows.get? pk = some e ∧ Admits s.repository params pk e := by
  rw [matching, mem_filter, Dict.mem_entries]
  rfl

/-- **`create` inserts a prepared entity.** -/
theorem create_ok {dto : C} {r : R} (h : s.create dto pk ctx w = .ok (r, w')) :
    ∃ e, prepareForCreate PK ctx s.cls.mro (s.assembler.toDomain dto) = .ok e ∧
      w'.rows = w.rows.set pk e ∧ r = s.assembler.toReadDto pk e := by
  obtain ⟨_, w₁, h₁, h⟩ := bind_ok.mp h
  obtain ⟨_, w₂, h₂, h⟩ := bind_ok.mp h
  obtain ⟨e, w₃, h₃, h⟩ := bind_ok.mp h
  obtain ⟨_, w₄, h₄, h⟩ := bind_ok.mp h
  obtain ⟨_, w₅, h₅, h⟩ := bind_ok.mp h
  obtain ⟨_, w₆, h₆, h⟩ := bind_ok.mp h
  obtain ⟨-, rfl⟩ := preCheck_ok h₁
  obtain ⟨-, rfl⟩ := authorize_ok.mp h₂
  obtain ⟨hprepared, rfl⟩ := lift_ok.mp h₃
  obtain rfl := save_ok.mp h₄
  obtain rfl := note_ok.mp h₅
  obtain rfl := note_ok.mp h₆
  obtain ⟨rfl, rfl⟩ := pure_ok.mp h
  exact ⟨e, hprepared, rfl, rfl⟩

/-- **`update` writes to an entity that the caller sees.** -/
theorem update_ok {dto : U} {r : R} (h : s.update pk dto ctx w = .ok (r, w')) :
    ∃ e, w.rows.get? pk = some e ∧ Visible s.cls.mro ctx e ∧
      w'.rows = w.rows.set pk (s.assembler.applyUpdate pk e dto) ∧
        r = s.assembler.toReadDto pk (s.assembler.applyUpdate pk e dto) := by
  obtain ⟨_, w₁, h₁, h⟩ := bind_ok.mp h
  obtain ⟨e, w₂, h₂, h⟩ := bind_ok.mp h
  obtain ⟨_, w₃, h₃, h⟩ := bind_ok.mp h
  obtain ⟨_, w₄, h₄, h⟩ := bind_ok.mp h
  obtain ⟨_, w₅, h₅, h⟩ := bind_ok.mp h
  obtain ⟨_, w₆, h₆, h⟩ := bind_ok.mp h
  obtain ⟨_, w₇, h₇, h⟩ := bind_ok.mp h
  obtain ⟨-, rfl⟩ := preCheck_ok h₁
  obtain ⟨⟨hfound, hvisible⟩, rfl⟩ := findChecked_ok.mp h₂
  obtain rfl := note_ok.mp h₃
  obtain ⟨-, rfl⟩ := authorize_ok.mp h₄
  obtain rfl := save_ok.mp h₅
  obtain rfl := note_ok.mp h₆
  obtain rfl := note_ok.mp h₇
  obtain ⟨rfl, rfl⟩ := pure_ok.mp h
  exact ⟨e, hfound, hvisible, rfl, rfl⟩

/-- **`AsyncService.delete` removes an entity that the caller sees**, with all hooks. -/
theorem baseDelete_ok (h : s.baseDelete pk ctx w = .ok (u, w')) :
    (∃ e, w.rows.get? pk = some e ∧ Visible s.cls.mro ctx e) ∧ w'.rows = w.rows.erase pk ∧
      w'.trace = w.trace ++ [Trace.preCheck, .asyncCheckEntity pk,
        .published (.deleted pk (eventTenant ctx)), .afterDelete pk] := by
  obtain ⟨_, w₁, h₁, h⟩ := bind_ok.mp h
  obtain ⟨e, w₂, h₂, h⟩ := bind_ok.mp h
  obtain ⟨_, w₃, h₃, h⟩ := bind_ok.mp h
  obtain ⟨_, w₄, h₄, h⟩ := bind_ok.mp h
  obtain ⟨_, w₅, h₅, h₆⟩ := bind_ok.mp h
  obtain ⟨-, rfl⟩ := preCheck_ok h₁
  obtain ⟨hfound, rfl⟩ := findChecked_ok.mp h₂
  obtain rfl := note_ok.mp h₃
  obtain ⟨-, rfl⟩ := authorize_ok.mp h₄
  obtain rfl := modifyRows_ok.mp h₅
  obtain rfl := afterDeletion_ok.mp h₆
  exact ⟨⟨e, hfound⟩, rfl, by simp⟩

/-- **`SoftDeleteService.delete` marks an entity that the caller sees**, and runs no hook. -/
theorem softDelete_ok {now : ℤ} (h : s.softDelete pk now ctx w = .ok (u, w')) :
    ∃ e, w.rows.get? pk = some e ∧ Visible s.cls.mro ctx e ∧
      w'.rows = w.rows.set pk { e with deletedAt := some now } ∧ w'.trace = w.trace := by
  obtain ⟨e, w₁, h₁, h⟩ := bind_ok.mp h
  obtain ⟨_, w₂, h₂, h₃⟩ := bind_ok.mp h
  obtain ⟨⟨hfound, hvisible⟩, rfl⟩ := findChecked_ok.mp h₁
  obtain ⟨-, rfl⟩ := authorize_ok.mp h₂
  obtain rfl := save_ok.mp h₃
  exact ⟨e, hfound, hvisible, rfl, rfl⟩

/-- **`restore` clears the mark of any entity**, whoever sees it. -/
theorem restore_ok {r : R} (h : s.restore pk ctx w = .ok (r, w')) :
    .softDelete ∈ s.cls.mro ∧ ∃ e, w.rows.get? pk = some e ∧
      w'.rows = w.rows.set pk { e with deletedAt := none } ∧ w'.trace = w.trace ∧
        r = s.assembler.toReadDto pk { e with deletedAt := none } := by
  unfold restore at h
  split_ifs at h with hsoft
  · refine ⟨hsoft, ?_⟩
    obtain ⟨found, w₁, h₁, h⟩ := bind_ok.mp h
    obtain ⟨hfound, rfl⟩ := findById_ok.mp h₁
    cases found with
    | none => cases (lift_ok.mp h).1
    | some e =>
      obtain ⟨_, w₂, h₂, h⟩ := bind_ok.mp h
      obtain ⟨_, w₃, h₃, h⟩ := bind_ok.mp h
      obtain ⟨-, rfl⟩ := authorize_ok.mp h₂
      obtain rfl := save_ok.mp h₃
      obtain ⟨rfl, rfl⟩ := pure_ok.mp h
      exact ⟨e, hfound.symm, rfl, rfl, rfl⟩
  · cases (lift_ok.mp h).1

/-! ## Batches -/

theorem mapM_findDeletable_ok {pks : List PK} {l : List PUnit}
    (h : pks.mapM (s.findDeletable ctx) w = .ok (l, w')) :
    (∀ pk ∈ pks, ∃ e, w.rows.get? pk = some e ∧ Visible s.cls.mro ctx e) ∧ w'.rows = w.rows ∧
      w'.trace = w.trace ++ pks.map .asyncCheckEntity := by
  induction pks generalizing w l with
  | nil =>
    obtain ⟨-, rfl⟩ := mapM_nil_ok h
    exact ⟨fun _ hm => absurd hm not_mem_nil, rfl, by simp⟩
  | cons pk pks ih =>
    obtain ⟨_, w₁, rest, h₁, h₂, rfl⟩ := mapM_cons_ok h
    obtain ⟨e, w₂, hfind, h₁⟩ := bind_ok.mp h₁
    obtain ⟨_, w₃, hnote, hauth⟩ := bind_ok.mp h₁
    obtain ⟨hfound, rfl⟩ := findChecked_ok.mp hfind
    obtain rfl := note_ok.mp hnote
    obtain ⟨-, rfl⟩ := authorize_ok.mp hauth
    obtain ⟨hall, hrows, htrace⟩ := ih h₂
    refine ⟨fun pk' hm => ?_, hrows, by rw [htrace]; simp⟩
    rcases mem_cons.mp hm with rfl | hm
    · exact ⟨e, hfound⟩
    · exact hall pk' hm

/-- **`delete_many` removes entities that the caller sees**, all of them. -/
theorem deleteMany_ok {pks : List PK} (h : s.deleteMany pks ctx w = .ok (u, w')) :
    (∀ pk ∈ pks, ∃ e, w.rows.get? pk = some e ∧ Visible s.cls.mro ctx e) ∧
      w'.rows = pks.foldl (fun rows pk => rows.erase pk) w.rows ∧
      (w'.trace = if pks = [] then w.trace else w.trace ++ Trace.preCheck ::
        pks.map .asyncCheckEntity ++ pks.flatMap fun pk =>
          [Trace.published (.deleted pk (eventTenant ctx)), .afterDelete pk]) := by
  unfold deleteMany at h
  split_ifs at h
  · unfold bulkDeleteMany at h
    cases pks with
    | nil =>
      obtain ⟨-, rfl⟩ := pure_ok.mp h
      exact ⟨fun _ hm => absurd hm not_mem_nil, rfl, rfl⟩
    | cons pk pks =>
      obtain ⟨_, w₁, h₁, h⟩ := bind_ok.mp h
      obtain ⟨_, w₂, h₂, h⟩ := bind_ok.mp h
      obtain ⟨_, w₃, h₃, h⟩ := bind_ok.mp h
      obtain ⟨_, w₄, h₄, h₅⟩ := bind_ok.mp h
      obtain ⟨-, rfl⟩ := preCheck_ok h₁
      obtain ⟨hall, hrows₂, htrace₂⟩ := mapM_findDeletable_ok h₂
      obtain rfl := modifyRows_ok.mp h₃
      obtain ⟨hrows₄, htrace₄⟩ := mapM_afterDeletion_ok h₄
      obtain ⟨-, rfl⟩ := pure_ok.mp h₅
      refine ⟨hall, ?_, ?_⟩
      · rw [hrows₄, hrows₂]
      · rw [htrace₄, htrace₂]
        simp
  · cases (lift_ok.mp h).1

/-- **`create_many` inserts prepared entities**, all of them. -/
theorem createMany_ok {dtos : List (C × PK)} {l : List R}
    (h : s.createMany dtos ctx w = .ok (l, w')) :
    ∃ rows, List.Forall₂ (Prepared s ctx) dtos rows ∧
      w'.rows = rows.foldl (fun d row => d.set row.1 row.2) w.rows ∧
        l = rows.map fun row => s.assembler.toReadDto row.1 row.2 := by
  unfold createMany at h
  split_ifs at h
  · unfold bulkCreateMany at h
    cases dtos with
    | nil =>
      obtain ⟨rfl, rfl⟩ := pure_ok.mp h
      exact ⟨[], .nil, rfl, rfl⟩
    | cons dto dtos =>
      obtain ⟨_, w₁, h₁, h⟩ := bind_ok.mp h
      obtain ⟨_, w₂, h₂, h⟩ := bind_ok.mp h
      obtain ⟨rows, w₃, h₃, h⟩ := bind_ok.mp h
      obtain ⟨_, w₄, h₄, h⟩ := bind_ok.mp h
      obtain ⟨_, w₅, h₅, h₆⟩ := bind_ok.mp h
      obtain ⟨-, rfl⟩ := preCheck_ok h₁
      obtain ⟨-, rfl⟩ := authorize_ok.mp h₂
      obtain ⟨hprepared, rfl⟩ := mapM_prepareDto_ok h₃
      obtain rfl := modifyRows_ok.mp h₄
      obtain ⟨rfl, rfl⟩ := pure_ok.mp h₆
      exact ⟨rows, hprepared, mapM_created_ok h₅, rfl⟩
  · cases (lift_ok.mp h).1

theorem fresh_create {dto : C} {rows : Dict PK (Entity V)} (h : rows.get? pk = none) :
    (Call.create dto pk : Call PK C U).Fresh rows := by
  refine ⟨nodup_singleton _, fun pk' hm => ?_⟩
  rw [mem_singleton.mp hm]
  exact h

theorem fresh_of_inserted {call : Call PK C U} {rows : Dict PK (Entity V)}
    (h : call.inserted = []) : call.Fresh rows := by
  unfold Call.Fresh
  rw [h]
  exact ⟨nodup_nil, fun _ hm => absurd hm not_mem_nil⟩

/-- What a call that returns has done to the rows, and what it returns. -/
inductive Effect (s : Service PK V C R U) (ctx : Auth.AuthContext) (rows : Dict PK (Entity V)) :
    Call PK C U → Reply R → Dict PK (Entity V) → Prop
  | get {pk : PK} {e : Entity V} (hfound : rows.get? pk = some e)
      (hvisible : Visible s.cls.mro ctx e) :
      Effect s ctx rows (.get pk) (.dto (s.assembler.toReadDto pk e)) rows
  | list {params narrowed : QueryParams}
      (hscoped : scopedParams PK s.cls ctx s.cls.mro params = .ok narrowed) :
      Effect s ctx rows (.list params) (.dtos ((s.repository.page narrowed
        (s.matching narrowed rows)).map fun row => s.assembler.toReadDto row.1 row.2)) rows
  | count {params narrowed : QueryParams}
      (hscoped : scopedParams PK s.cls ctx s.cls.mro params = .ok narrowed) :
      Effect s ctx rows (.count params) (.count (s.matching narrowed rows).length) rows
  | stream {params narrowed : QueryParams}
      (hscoped : scopedParams PK s.cls ctx s.cls.mro params = .ok narrowed) :
      Effect s ctx rows (.stream params) (.dtos ((s.repository.page narrowed
        (s.matching narrowed rows)).map fun row => s.assembler.toReadDto row.1 row.2)) rows
  | create {dto : C} {pk : PK} {e : Entity V} (hprepared : s.Prepared ctx (dto, pk) (pk, e)) :
      Effect s ctx rows (.create dto pk) (.dto (s.assembler.toReadDto pk e)) (rows.set pk e)
  | createMany {dtos : List (C × PK)} {l : List (PK × Entity V)}
      (hprepared : List.Forall₂ (s.Prepared ctx) dtos l) :
      Effect s ctx rows (.createMany dtos)
        (.dtos (l.map fun row => s.assembler.toReadDto row.1 row.2))
        (l.foldl (fun d row => d.set row.1 row.2) rows)
  | update {pk : PK} {dto : U} {e : Entity V} (hfound : rows.get? pk = some e)
      (hvisible : Visible s.cls.mro ctx e) :
      Effect s ctx rows (.update pk dto)
        (.dto (s.assembler.toReadDto pk (s.assembler.applyUpdate pk e dto)))
        (rows.set pk (s.assembler.applyUpdate pk e dto))
  | patch {pk : PK} {dto : U} {e : Entity V} (hfound : rows.get? pk = some e)
      (hvisible : Visible s.cls.mro ctx e) :
      Effect s ctx rows (.patch pk dto)
        (.dto (s.assembler.toReadDto pk (s.assembler.applyUpdate pk e dto)))
        (rows.set pk (s.assembler.applyUpdate pk e dto))
  | softDelete {pk : PK} {now : ℤ} {e : Entity V} (hsoft : .softDelete ∈ s.cls.mro)
      (hfound : rows.get? pk = some e) (hvisible : Visible s.cls.mro ctx e) :
      Effect s ctx rows (.delete pk now) .none (rows.set pk { e with deletedAt := some now })
  | delete {pk : PK} {now : ℤ} {e : Entity V} (hsoft : .softDelete ∉ s.cls.mro)
      (hfound : rows.get? pk = some e) (hvisible : Visible s.cls.mro ctx e) :
      Effect s ctx rows (.delete pk now) .none (rows.erase pk)
  | deleteMany {pks : List PK}
      (hall : ∀ pk ∈ pks, ∃ e, rows.get? pk = some e ∧ Visible s.cls.mro ctx e) :
      Effect s ctx rows (.deleteMany pks) .none (pks.foldl (fun d pk => d.erase pk) rows)
  | restore {pk : PK} {e : Entity V} (hsoft : .softDelete ∈ s.cls.mro)
      (hfound : rows.get? pk = some e) :
      Effect s ctx rows (.restore pk)
        (.dto (s.assembler.toReadDto pk { e with deletedAt := none }))
        (rows.set pk { e with deletedAt := none })

/-- **What one call can do**, by its kind. -/
theorem perform_effect {call : Call PK C U} {reply : Reply R}
    (h : s.perform ctx call w = .ok (reply, w')) : s.Effect ctx w.rows call reply w'.rows := by
  cases call with
  | get pk =>
    obtain ⟨r, hget, rfl⟩ := map_ok.mp h
    obtain ⟨e, hfound, hvisible, -, rfl, hrows⟩ := get_ok hget
    rw [hrows]
    exact .get hfound hvisible
  | list params =>
    obtain ⟨dtos, hlist, rfl⟩ := map_ok.mp h
    obtain ⟨narrowed, hscoped, rfl, rfl⟩ := list_ok hlist
    exact .list hscoped
  | count params =>
    obtain ⟨n, hcount, rfl⟩ := map_ok.mp h
    obtain ⟨narrowed, hscoped, rfl, rfl⟩ := count_ok hcount
    exact .count hscoped
  | stream params =>
    obtain ⟨dtos, hstream, rfl⟩ := map_ok.mp h
    obtain ⟨narrowed, hscoped, rfl, rfl⟩ := list_ok hstream
    exact .stream hscoped
  | create dto pk =>
    obtain ⟨r, hcreate, rfl⟩ := map_ok.mp h
    obtain ⟨e, hprepared, hrows, rfl⟩ := create_ok hcreate
    rw [hrows]
    exact .create ⟨rfl, hprepared⟩
  | createMany dtos =>
    obtain ⟨l, hcreate, rfl⟩ := map_ok.mp h
    obtain ⟨rows, hprepared, hrows, rfl⟩ := createMany_ok hcreate
    rw [hrows]
    exact .createMany hprepared
  | update pk dto =>
    obtain ⟨r, hupdate, rfl⟩ := map_ok.mp h
    obtain ⟨e, hfound, hvisible, hrows, rfl⟩ := update_ok hupdate
    rw [hrows]
    exact .update hfound hvisible
  | patch pk dto =>
    obtain ⟨r, hupdate, rfl⟩ := map_ok.mp h
    obtain ⟨e, hfound, hvisible, hrows, rfl⟩ := update_ok hupdate
    rw [hrows]
    exact .patch hfound hvisible
  | delete pk now =>
    obtain ⟨_, hdelete, rfl⟩ := map_ok.mp h
    unfold delete at hdelete
    split_ifs at hdelete with hsoft
    · obtain ⟨e, hfound, hvisible, hrows, -⟩ := softDelete_ok hdelete
      rw [hrows]
      exact .softDelete hsoft hfound hvisible
    · obtain ⟨⟨e, hfound, hvisible⟩, hrows, -⟩ := baseDelete_ok hdelete
      rw [hrows]
      exact .delete hsoft hfound hvisible
  | deleteMany pks =>
    obtain ⟨_, hdelete, rfl⟩ := map_ok.mp h
    obtain ⟨hall, hrows, -⟩ := deleteMany_ok hdelete
    rw [hrows]
    exact .deleteMany hall
  | restore pk =>
    obtain ⟨r, hrestore, rfl⟩ := map_ok.mp h
    obtain ⟨hsoft, e, hfound, hrows, -, rfl⟩ := restore_ok hrestore
    rw [hrows]
    exact .restore hsoft hfound

end Service

end AsyncService

end Varco
