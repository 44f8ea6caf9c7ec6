import Varco.Service.Bulk

/-!
# Bulk operations beside single ones

`create_many` and `delete_many` against `create` and `delete`, one after the other. Which checks see
what differs: in a batch those before the commit see the rows as they were before it, and those
after it see them as the whole batch leaves them (`Together`); one by one each sees what its
predecessors have left (`OneByOne`). A key that is repeated is found each time in a batch, but only
once otherwise.
-/

namespace Varco

open List Lasting

namespace AsyncService

variable {PK E C R X : Type}

namespace HookedService

variable {s : HookedService PK E C R X}

/-! ## Creating -/

abbrev Item (PK E R : Type) : Type := (PK × E) × R

/-- A DTO is made into a row, whatever the other rows are. -/
structure Made (s : HookedService PK E C R X) (dto : C × PK) (item : Item PK E R) : Prop where
  key : item.1.1 = dto.2
  builds : s.Builds dto.1 item.1.2
  read : s.toReadDto item.1.1 item.1.2 = .ok item.2

/-- The checks of a new entity that look at the rows as they are before it is committed. -/
def MayCreate (s : HookedService PK E C R X) (rows : Dict PK E) (entity : E) : Prop :=
  s.authorize rows .create none = .ok () ∧ s.validateEntityAsync rows entity = .ok ()

def Accepts (s : HookedService PK E C R X) (rows : Dict PK E) (item : Item PK E R) : Prop :=
  s.constraints rows = .ok () ∧ s.afterCreate rows item.1.1 item.1.2 item.2 = .ok ()

/-- `EntityCreatedEvent` -/
def createdEvent (s : HookedService PK E C R X) (item : Item PK E R) : EntityEvent PK R :=
  .created item.1.1 s.tenantId item.2

theorem builds_unique {dto : C} {entity entity' : E} (h : s.Builds dto entity)
    (h' : s.Builds dto entity') : entity = entity' := by
  obtain ⟨entity₀, hdomain, hprepare, -⟩ := h
  obtain ⟨entity₀', hdomain', hprepare', -⟩ := h'
  rw [hdomain] at hdomain'
  cases hdomain'
  rw [hprepare] at hprepare'
  exact Except.ok.inj hprepare'

theorem made_unique {dto : C × PK} {item item' : Item PK E R} (h : s.Made dto item)
    (h' : s.Made dto item') : item = item' := by
  obtain ⟨⟨pk, entity⟩, readDto⟩ := item
  obtain ⟨⟨pk', entity'⟩, readDto'⟩ := item'
  obtain rfl : pk = pk' := h.key.trans h'.key.symm
  obtain rfl : entity = entity' := builds_unique h.builds h'.builds
  obtain rfl : readDto = readDto' := Except.ok.inj (h.read.symm.trans h'.read)
  rfl

variable {dtos : List (C × PK)} {items : List (Item PK E R)}

theorem made_all_unique {items' : List (Item PK E R)}
    (h : List.Forall₂ s.Made dtos items) (h' : List.Forall₂ s.Made dtos items') :
    items = items' := by
  induction h generalizing items' with
  | nil =>
    cases h'
    rfl
  | cons hmade _ ih =>
    obtain ⟨item', rest', hmade', hrest', rfl⟩ := forall₂_cons_left_iff.mp h'
    rw [made_unique hmade hmade', ih hrest']

section

variable {books books' : Books PK E R} {rows rows' : Dict PK E} {items : List (Item PK E R)}

theorem createdAll_ok :
    (∃ us, (items.mapM fun item => s.created item.1.1 item.1.2 item.2).outcome books =
        (.ok us, books')) ↔
      (∀ item ∈ items, s.publish (s.createdEvent item) = .ok () ∧
        s.afterCreate books.rows item.1.1 item.1.2 item.2 = .ok ()) ∧
      books' = { books with events := books.events ++ items.map s.createdEvent } :=
  publishAll_ok s.createdEvent fun item rows => s.afterCreate rows item.1.1 item.1.2 item.2

theorem prepareAll_ok {entities : List (PK × E)} :
    (dtos.mapM fun dto => (do
        let entity ← s.newEntity dto.1
        return (dto.2, entity) : RowsM PK E X (PK × E))) rows = .ok (entities, rows') ↔
      List.Forall₂ (fun dto row => row.1 = dto.2 ∧ s.Builds dto.1 row.2 ∧
        s.validateEntityAsync rows row.2 = .ok ()) dtos entities ∧ rows' = rows := by
  refine Atomic.mapM_look_ok fun dto row rows' => ?_
  rw [Atomic.map_ok]
  constructor
  · rintro ⟨entity, hentity, rfl⟩
    obtain ⟨hbuilds, hasync, rfl⟩ := newEntity_ok.mp hentity
    exact ⟨⟨rfl, hbuilds, hasync⟩, rfl⟩
  · rintro ⟨⟨hkey, hbuilds, hasync⟩, rfl⟩
    exact ⟨row.2, newEntity_ok.mpr ⟨hbuilds, hasync, rfl⟩, Prod.ext hkey rfl⟩

theorem readAll_ok {entities : List (PK × E)} :
    (entities.mapM fun row => (do
        let readDto ← .lift (s.toReadDto row.1 row.2)
        return (row, readDto) : RowsM PK E X (Item PK E R))) rows = .ok (items, rows') ↔
      (entities = items.map Prod.fst ∧
        ∀ item ∈ items, s.toReadDto item.1.1 item.1.2 = .ok item.2) ∧ rows' = rows := by
  have hstep : ∀ (row : PK × E) (item : Item PK E R) (rows' : Dict PK E),
      (do
        let readDto ← .lift (s.toReadDto row.1 row.2)
        return (row, readDto) : RowsM PK E X (Item PK E R)) rows = .ok (item, rows') ↔
      (row = item.1 ∧ s.toReadDto item.1.1 item.1.2 = .ok item.2) ∧ rows' = rows := by
    intro row item rows'
    rw [Atomic.map_ok]
    constructor
    · rintro ⟨readDto, h, rfl⟩
      obtain ⟨hread, rfl⟩ := Atomic.lift_ok.mp h
      exact ⟨⟨rfl, hread⟩, rfl⟩
    · rintro ⟨⟨rfl, hread⟩, rfl⟩
      exact ⟨item.2, Atomic.lift_ok.mpr ⟨hread, rfl⟩, rfl⟩
  rw [Atomic.mapM_look_ok hstep]
  refine and_congr_left fun _ => ?_
  induction items generalizing entities with
  | nil => simp
  | cons item items ih =>
    rw [forall₂_cons_right_iff, map_cons, forall_mem_cons]
    constructor
    · rintro ⟨row, rest, ⟨rfl, hread⟩, hrest, rfl⟩
      obtain ⟨rfl, hreads⟩ := ih.mp hrest
      exact ⟨rfl, hread, hreads⟩
    · rintro ⟨rfl, hread, hreads⟩
      exact ⟨item.1, _, ⟨rfl, hread⟩, ih.mpr ⟨rfl, hreads⟩, rfl⟩

/-- What is prepared, saved and read of the DTOs are the items that they are made into. -/
theorem made_of_loops :
    (List.Forall₂ (fun dto row => row.1 = dto.2 ∧ s.Builds dto.1 row.2 ∧
        s.validateEntityAsync rows row.2 = .ok ()) dtos (items.map Prod.fst) ∧
      ∀ item ∈ items, s.toReadDto item.1.1 item.1.2 = .ok item.2) ↔
    List.Forall₂ s.Made dtos items ∧
      ∀ item ∈ items, s.validateEntityAsync rows item.1.2 = .ok () := by
  rw [forall₂_map_right_iff]
  induction items generalizing dtos with
  | nil => simp
  | cons item items ih =>
    rw [forall₂_cons_right_iff, forall₂_cons_right_iff, forall_mem_cons,
      forall_mem_cons]
    constructor
    · rintro ⟨⟨dto, rest, ⟨hkey, hbuilds, hasync⟩, hrest, rfl⟩, hread, hreads⟩
      obtain ⟨hmade, hasyncs⟩ := ih.mp ⟨hrest, hreads⟩
      exact ⟨⟨dto, rest, ⟨hkey, hbuilds, hread⟩, hmade, rfl⟩, hasync, hasyncs⟩
    · rintro ⟨⟨dto, rest, ⟨hkey, hbuilds, hread⟩, hmade, rfl⟩, hasync, hasyncs⟩
      obtain ⟨hrest, hreads⟩ := ih.mpr ⟨hmade, hasyncs⟩
      exact ⟨⟨dto, rest, ⟨hkey, hbuilds, hasync⟩, hrest, rfl⟩, hread, hreads⟩

end

section

variable [DecidableEq PK] {books books' : Books PK E R} {rows rows' : Dict PK E}

def addRow (rows : Dict PK E) (item : Item PK E R) : Dict PK E := rows.set item.1.1 item.1.2

/-- **`create` returns** if its DTO is made into a row, whose key is new, and every check passes. -/
theorem create_ok {dto : C × PK} {readDto : R} :
    (s.create dto).outcome books = (.ok readDto, books') ↔
      ∃ item, s.Made dto item ∧ s.preCheck = .ok () ∧ books.rows.get? item.1.1 = none ∧
        s.publish (s.createdEvent item) = .ok () ∧ s.MayCreate books.rows item.1.2 ∧
        s.Accepts (addRow books.rows item) item ∧ readDto = item.2 ∧
        books' = ⟨addRow books.rows item, books.events ++ [s.createdEvent item],
          books.commits + 1⟩ := by
  unfold create
  rw [bind_ok]
  constructor
  · rintro ⟨_, books₁, h₁, k₁⟩
    obtain ⟨_, books₂, h₂, k₂⟩ := bind_ok.mp k₁
    obtain ⟨saved, books₃, h₃, k₃⟩ := bind_ok.mp k₂
    obtain ⟨_, books₄, h₄, k₄⟩ := bind_ok.mp k₃
    obtain ⟨hpre, rfl⟩ := run_ok.mp h₁
    obtain ⟨hauth, rfl⟩ := run_ok.mp h₂
    obtain ⟨rows, hbody, hconstraints, rfl⟩ := unitOfWork_ok.mp h₃
    obtain ⟨hpublish, hafter, rfl⟩ := created_ok.mp h₄
    obtain ⟨rfl, rfl⟩ := pure_ok.mp k₄
    obtain ⟨entity, rows₁, g₁, l₁⟩ := Atomic.bind_ok.mp hbody
    obtain ⟨_, rows₂, g₂, l₂⟩ := Atomic.bind_ok.mp l₁
    obtain ⟨readDto, rows₃, g₃, l₃⟩ := Atomic.bind_ok.mp l₂
    obtain ⟨hbuilds, hasync, rfl⟩ := newEntity_ok.mp g₁
    obtain ⟨hnew, rfl⟩ := insert_ok.mp g₂
    obtain ⟨hread, rfl⟩ := Atomic.lift_ok.mp g₃
    obtain ⟨rfl, rfl⟩ := Atomic.pure_ok.mp l₃
    exact ⟨((dto.2, entity), readDto), ⟨rfl, hbuilds, hread⟩, hpre, hnew, hpublish,
      ⟨hauth, hasync⟩, ⟨hconstraints, hafter⟩, rfl, rfl⟩
  · rintro ⟨⟨⟨_, entity⟩, readDto⟩, ⟨rfl, hbuilds, hread⟩, hpre, hnew, hpublish, ⟨hauth, hasync⟩,
      ⟨hconstraints, hafter⟩, rfl, rfl⟩
    refine ⟨(), books, run_ok.mpr ⟨hpre, rfl⟩, bind_ok.mpr
      ⟨(), books, run_ok.mpr ⟨hauth, rfl⟩, bind_ok.mpr ⟨(entity, readDto), _,
        unitOfWork_ok.mpr ⟨books.rows.set dto.2 entity, ?_, hconstraints, rfl⟩,
        bind_ok.mpr ⟨(), _, created_ok.mpr ⟨hpublish, hafter, rfl⟩,
          pure_ok.mpr ⟨rfl, rfl⟩⟩⟩⟩⟩
    refine Atomic.bind_ok.mpr ⟨entity, books.rows, newEntity_ok.mpr ⟨hbuilds, hasync, rfl⟩,
      Atomic.bind_ok.mpr ⟨(), _, insert_ok.mpr ⟨hnew, rfl⟩, Atomic.bind_ok.mpr
        ⟨readDto, _, Atomic.lift_ok.mpr ⟨hread, rfl⟩, Atomic.pure_ok.mpr ⟨rfl, rfl⟩⟩⟩⟩

def Fresh (rows : Dict PK E) (items : List (Item PK E R)) : Prop :=
  (items.map fun item => item.1.1).Nodup ∧ ∀ item ∈ items, rows.get? item.1.1 = none

theorem fresh_cons {item : Item PK E R} :
    Fresh rows (item :: items) ↔ rows.get? item.1.1 = none ∧ Fresh (addRow rows item) items := by
  unfold Fresh addRow
  rw [map_cons, nodup_cons, forall_mem_cons]
  constructor
  · rintro ⟨⟨hnew, hnodup⟩, hitem, hitems⟩
    refine ⟨hitem, hnodup, fun other hother => ?_⟩
    rw [Dict.get?_set, if_neg fun heq => hnew ?_]
    · exact hitems other hother
    · rw [← heq]
      exact mem_map_of_mem hother
  · rintro ⟨hitem, hnodup, hitems⟩
    have hget : ∀ other ∈ items, other.1.1 ≠ item.1.1 ∧ rows.get? other.1.1 = none := by
      intro other hother
      have hnone := hitems other hother
      rw [Dict.get?_set] at hnone
      split_ifs at hnone with heq
      exact ⟨heq, hnone⟩
    refine ⟨⟨fun hmem => ?_, hnodup⟩, hitem, fun other hother => (hget other hother).2⟩
    obtain ⟨other, hother, heq⟩ := mem_map.mp hmem
    exact (hget other hother).1 heq

def Together (s : HookedService PK E C R X) (rows : Dict PK E) (items : List (Item PK E R)) :
    Prop :=
  ∀ item ∈ items, s.MayCreate rows item.1.2 ∧ s.Accepts (items.foldl addRow rows) item

def OneByOne (s : HookedService PK E C R X) : Dict PK E → List (Item PK E R) → Prop
  | _, [] => True
  | rows, item :: items =>
    (s.MayCreate rows item.1.2 ∧ s.Accepts (addRow rows item) item) ∧
      s.OneByOne (addRow rows item) items

/-- Everything that a creation of the DTOs needs, apart from the checks that look at the rows. -/
structure Creatable (s : HookedService PK E C R X) (rows : Dict PK E) (dtos : List (C × PK))
    (items : List (Item PK E R)) : Prop where
  made : List.Forall₂ s.Made dtos items
  preCheck : dtos ≠ [] → s.preCheck = .ok ()
  fresh : Fresh rows items
  publish : ∀ item ∈ items, s.publish (s.createdEvent item) = .ok ()

theorem creatable_cons {dto : C × PK} {item : Item PK E R}
    : s.Creatable rows (dto :: dtos) (item :: items) ↔
      (s.Made dto item ∧ s.preCheck = .ok () ∧ rows.get? item.1.1 = none ∧
        s.publish (s.createdEvent item) = .ok ()) ∧ s.Creatable (addRow rows item) dtos items := by
  constructor
  · rintro ⟨hmade, hpre, hfresh, hpublish⟩
    obtain ⟨hmade, hrest⟩ := forall₂_cons.mp hmade
    obtain ⟨hnew, hfresh⟩ := fresh_cons.mp hfresh
    obtain ⟨hitem, hitems⟩ := forall_mem_cons.mp hpublish
    have hpre := hpre (cons_ne_nil _ _)
    exact ⟨⟨hmade, hpre, hnew, hitem⟩, hrest, fun _ => hpre, hfresh, hitems⟩
  · rintro ⟨⟨hmade, hpre, hnew, hitem⟩, hrest, -, hfresh, hitems⟩
    exact ⟨.cons hmade hrest, fun _ => hpre, fresh_cons.mpr ⟨hnew, hfresh⟩,
      forall_mem_cons.mpr ⟨hitem, hitems⟩⟩

/-- **One after the other**, the DTOs are created if every check passes with the rows of those
before. -/
theorem createEach_ok {readDtos : List R} :
    (dtos.mapM s.create).outcome books = (.ok readDtos, books') ↔
      ∃ items, s.Creatable books.rows dtos items ∧ s.OneByOne books.rows items ∧
        readDtos = items.map Prod.snd ∧
        books' = ⟨items.foldl addRow books.rows, books.events ++ items.map s.createdEvent,
          books.commits + items.length⟩ := by
  induction dtos generalizing books readDtos with
  | nil =>
    rw [mapM_nil_ok]
    constructor
    · rintro ⟨rfl, rfl⟩
      exact ⟨[], ⟨.nil, fun h => absurd rfl h, ⟨nodup_nil, by simp⟩, by simp⟩, trivial, rfl,
        by simp⟩
    · rintro ⟨items, ⟨hmade, -⟩, -, rfl, rfl⟩
      obtain rfl := forall₂_nil_left_iff.mp hmade
      simp
  | cons dto dtos ih =>
    rw [mapM_cons_ok]
    constructor
    · rintro ⟨readDto, books₁, rest, hcreate, hrest, rfl⟩
      obtain ⟨item, hmade, hpre, hnew, hpublish, hmay, haccepts, rfl, rfl⟩ := create_ok.mp hcreate
      obtain ⟨items, hcreatable, hchecks, rfl, rfl⟩ := ih.mp hrest
      refine ⟨item :: items, creatable_cons.mpr ⟨⟨hmade, hpre, hnew, hpublish⟩, hcreatable⟩,
        ⟨⟨hmay, haccepts⟩, hchecks⟩, rfl, ?_⟩
      simp [Nat.add_comm, Nat.add_left_comm]
    · rintro ⟨items, hcreatable, hchecks, rfl, rfl⟩
      obtain ⟨item, items, -, -, rfl⟩ := forall₂_cons_left_iff.mp hcreatable.made
      obtain ⟨⟨hmade, hpre, hnew, hpublish⟩, hcreatable⟩ := creatable_cons.mp hcreatable
      obtain ⟨⟨hmay, haccepts⟩, hchecks⟩ := hchecks
      refine ⟨item.2, _, items.map Prod.snd, create_ok.mpr
        ⟨item, hmade, hpre, hnew, hpublish, hmay, haccepts, rfl, rfl⟩,
        ih.mpr ⟨items, hcreatable, hchecks, rfl, ?_⟩, rfl⟩
      simp [Nat.add_comm, Nat.add_left_comm]

theorem insertAll_ok :
    (∃ us, ((items.map Prod.fst).mapM fun row => s.insert row.1 row.2) rows = .ok (us, rows')) ↔
      Fresh rows items ∧ rows' = items.foldl addRow rows := by
  induction items generalizing rows with
  | nil =>
    simp only [map_nil, Atomic.mapM_nil_iff, foldl_nil]
    constructor
    · rintro ⟨_, -, rfl⟩
      exact ⟨⟨nodup_nil, by simp⟩, rfl⟩
    · rintro ⟨-, rfl⟩
      exact ⟨[], rfl, rfl⟩
  | cons item items ih =>
    simp only [map_cons, Atomic.mapM_cons_iff, foldl_cons, fresh_cons]
    constructor
    · rintro ⟨_, _, rows₁, us, hinsert, hrest, rfl⟩
      obtain ⟨hnew, rfl⟩ := insert_ok.mp hinsert
      obtain ⟨hfresh, rfl⟩ := ih.mp ⟨us, hrest⟩
      exact ⟨⟨hnew, hfresh⟩, rfl⟩
    · rintro ⟨⟨hnew, hfresh⟩, rfl⟩
      obtain ⟨us, hrest⟩ := ih.mpr ⟨hfresh, rfl⟩
      exact ⟨() :: us, (), _, us, insert_ok.mpr ⟨hnew, rfl⟩, hrest, rfl⟩

/-- **As a batch**, the DTOs are created if every check passes with the rows before the batch, and
after it. -/
theorem createMany_ok {readDtos : List R} (hdtos : dtos ≠ []) :
    (s.createMany dtos).outcome books = (.ok readDtos, books') ↔
      ∃ items, s.Creatable books.rows dtos items ∧ s.Together books.rows items ∧
        readDtos = items.map Prod.snd ∧
        books' = ⟨items.foldl addRow books.rows, books.events ++ items.map s.createdEvent,
          books.commits + 1⟩ := by
  have hsome : ∀ items, List.Forall₂ s.Made dtos items → items ≠ [] := by
    rintro items hmade rfl
    exact hdtos (forall₂_nil_right_iff.mp hmade)
  unfold createMany
  rw [if_neg (by simpa using hdtos), bind_ok]
  constructor
  · rintro ⟨_, books₁, h₁, k₁⟩
    obtain ⟨_, books₂, h₂, k₂⟩ := bind_ok.mp k₁
    obtain ⟨items, books₃, h₃, k₃⟩ := bind_ok.mp k₂
    obtain ⟨us, books₄, h₄, k₄⟩ := bind_ok.mp k₃
    obtain ⟨hpre, rfl⟩ := run_ok.mp h₁
    obtain ⟨hauth, rfl⟩ := run_ok.mp h₂
    obtain ⟨rows, hbody, hconstraints, rfl⟩ := unitOfWork_ok.mp h₃
    obtain ⟨hlast, rfl⟩ := createdAll_ok.mp ⟨us, h₄⟩
    obtain ⟨rfl, rfl⟩ := pure_ok.mp k₄
    obtain ⟨entities, rows₁, g₁, l₁⟩ := Atomic.bind_ok.mp hbody
    obtain ⟨us', rows₂, g₂, g₃⟩ := Atomic.bind_ok.mp l₁
    obtain ⟨hprepare, rfl⟩ := prepareAll_ok.mp g₁
    obtain ⟨⟨rfl, hreads⟩, rfl⟩ := readAll_ok.mp g₃
    obtain ⟨hfresh, rfl⟩ := insertAll_ok.mp ⟨us', g₂⟩
    obtain ⟨hmade, hasync⟩ := made_of_loops.mp ⟨hprepare, hreads⟩
    refine ⟨items, ⟨hmade, fun _ => hpre, hfresh, fun item hitem => (hlast item hitem).1⟩,
      fun item hitem => ⟨⟨hauth, hasync item hitem⟩, hconstraints, (hlast item hitem).2⟩, rfl, rfl⟩
  · rintro ⟨items, ⟨hmade, hpre, hfresh, hpublish⟩, htogether, rfl, rfl⟩
    obtain ⟨first, hfirst⟩ := exists_mem_of_ne_nil items (hsome items hmade)
    have hauth := (htogether first hfirst).1.1
    have hconstraints := (htogether first hfirst).2.1
    obtain ⟨hprepare, hreads⟩ := made_of_loops.mpr
      ⟨hmade, fun item hitem => (htogether item hitem).1.2⟩
    obtain ⟨us', hinsert⟩ := insertAll_ok.mpr ⟨hfresh, rfl⟩
    have hlast : ∃ us, (items.mapM fun item => s.created item.1.1 item.1.2 item.2).outcome
        ⟨items.foldl addRow books.rows, books.events, books.commits + 1⟩ =
          (.ok us, ⟨items.foldl addRow books.rows, books.events ++ items.map s.createdEvent,
            books.commits + 1⟩) :=
      createdAll_ok.mpr
        ⟨fun item hitem => ⟨hpublish item hitem, (htogether item hitem).2.2⟩, rfl⟩
    obtain ⟨us, hlast⟩ := hlast
    refine ⟨(), books, run_ok.mpr ⟨hpre hdtos, rfl⟩, bind_ok.mpr
      ⟨(), books, run_ok.mpr ⟨hauth, rfl⟩, bind_ok.mpr ⟨items, _,
        unitOfWork_ok.mpr ⟨items.foldl addRow books.rows, ?_, hconstraints, rfl⟩,
        bind_ok.mpr ⟨us, _, hlast, pure_ok.mpr ⟨rfl, rfl⟩⟩⟩⟩⟩
    exact Atomic.bind_ok.mpr ⟨items.map Prod.fst, books.rows, prepareAll_ok.mpr ⟨hprepare, rfl⟩,
      Atomic.bind_ok.mpr ⟨us', _, hinsert, readAll_ok.mpr ⟨⟨rfl, hreads⟩, rfl⟩⟩⟩

theorem createMany_nil : (s.createMany []).outcome books = (.ok [], books) := rfl

/-- The two forms agree on what they create. -/
structure CreatesAlike (s : HookedService PK E C R X) (books : Books PK E R)
    (dtos : List (C × PK)) : Prop where
  succeeds : (∃ readDtos books', (s.createMany dtos).outcome books = (.ok readDtos, books')) ↔
    ∃ readDtos books', (dtos.mapM s.create).outcome books = (.ok readDtos, books')
  same : ∀ readDtos books' readDtos' books'',
    (s.createMany dtos).outcome books = (.ok readDtos, books') →
    (dtos.mapM s.create).outcome books = (.ok readDtos', books'') →
      readDtos = readDtos' ∧ books'.rows = books''.rows ∧ books'.events = books''.events

/-- The checks that look at the rows pass for the batch exactly if they pass one by one, unless
something else stands in the way of both. -/
def ChecksAlike (s : HookedService PK E C R X) (rows : Dict PK E) (dtos : List (C × PK)) : Prop :=
  ∀ items, s.Creatable rows dtos items → (s.Together rows items ↔ s.OneByOne rows items)

theorem creatable_unique {items' : List (Item PK E R)}
    (h : s.Creatable rows dtos items) (h' : s.Creatable rows dtos items') : items = items' :=
  made_all_unique h.made h'.made

theorem createsAlike_iff (dtos : List (C × PK)) :
    s.CreatesAlike books dtos ↔ s.ChecksAlike books.rows dtos := by
  by_cases hdtos : dtos = []
  · subst hdtos
    refine iff_of_true ⟨iff_of_true ⟨[], books, createMany_nil⟩ ⟨[], books, rfl⟩, ?_⟩ ?_
    · intro _ _ _ _ h h'
      cases h
      cases h'
      exact ⟨rfl, rfl, rfl⟩
    · intro items hcreatable
      obtain rfl := forall₂_nil_left_iff.mp hcreatable.made
      exact iff_of_true (by simp [Together]) trivial
  constructor
  · rintro ⟨hsucceeds, -⟩ items hcreatable
    constructor
    · intro htogether
      obtain ⟨_, _, hone⟩ := hsucceeds.mp ⟨_, _, (createMany_ok hdtos).mpr
        ⟨items, hcreatable, htogether, rfl, rfl⟩⟩
      obtain ⟨items', hcreatable', hchecks, -⟩ := createEach_ok.mp hone
      rwa [creatable_unique hcreatable hcreatable']
    · intro hone
      obtain ⟨_, _, htogether⟩ := hsucceeds.mpr ⟨_, _, createEach_ok.mpr
        ⟨items, hcreatable, hone, rfl, rfl⟩⟩
      obtain ⟨items', hcreatable', hchecks, -⟩ := (createMany_ok hdtos).mp htogether
      rwa [creatable_unique hcreatable hcreatable']
  · intro halike
    refine ⟨⟨?_, ?_⟩, ?_⟩
    · rintro ⟨_, _, hmany⟩
      obtain ⟨items, hcreatable, htogether, -⟩ := (createMany_ok hdtos).mp hmany
      exact ⟨_, _, createEach_ok.mpr
        ⟨items, hcreatable, (halike items hcreatable).mp htogether, rfl, rfl⟩⟩
    · rintro ⟨_, _, heach⟩
      obtain ⟨items, hcreatable, hone, -⟩ := createEach_ok.mp heach
      exact ⟨_, _, (createMany_ok hdtos).mpr
        ⟨items, hcreatable, (halike items hcreatable).mpr hone, rfl, rfl⟩⟩
    · intro _ _ _ _ hmany heach
      obtain ⟨items, hcreatable, -, rfl, rfl⟩ := (createMany_ok hdtos).mp hmany
      obtain ⟨items', hcreatable', -, rfl, rfl⟩ := createEach_ok.mp heach
      obtain rfl := creatable_unique hcreatable hcreatable'
      exact ⟨rfl, rfl, rfl⟩

end

/-! ## Deleting -/

def Releases (s : HookedService PK E C R X) (rows : Dict PK E) (pk : PK) : Prop :=
  s.constraints rows = .ok () ∧ s.afterDelete rows pk = .ok ()

/-- `EntityDeletedEvent` -/
def deletedEvent (s : HookedService PK E C R X) (pk : PK) : EntityEvent PK R :=
  .deleted pk s.tenantId

section

variable [DecidableEq PK] {books books' : Books PK E R} {rows rows' : Dict PK E} {pk : PK}
  {pks : List PK}

def dropRows (rows : Dict PK E) (pks : List PK) : Dict PK E :=
  pks.foldl (fun rows pk => rows.erase pk) rows

/-- **`delete` returns** if the entity is found and every check passes. -/
theorem delete_ok {u : Unit} : (s.delete pk).outcome books = (.ok u, books') ↔
    s.preCheck = .ok () ∧
      (∃ entity, s.Found books.rows pk entity ∧ s.MayDelete books.rows pk entity) ∧
      s.publish (s.deletedEvent pk) = .ok () ∧ s.Releases (books.rows.erase pk) pk ∧
      books' = ⟨books.rows.erase pk, books.events ++ [s.deletedEvent pk], books.commits + 1⟩ := by
  unfold delete
  rw [bind_ok]
  constructor
  · rintro ⟨_, books₁, h₁, k₁⟩
    obtain ⟨_, books₂, h₂, h₃⟩ := bind_ok.mp k₁
    obtain ⟨hpre, rfl⟩ := run_ok.mp h₁
    obtain ⟨rows, hbody, hconstraints, rfl⟩ := unitOfWork_ok.mp h₂
    obtain ⟨hpublish, hafter, rfl⟩ := deleted_ok.mp h₃
    obtain ⟨_, rows₁, g₁, g₂⟩ := Atomic.bind_ok.mp hbody
    obtain ⟨hfound, rfl⟩ := findDeletable_ok.mp g₁
    obtain rfl := Atomic.modify_ok.mp g₂
    exact ⟨hpre, hfound, hpublish, ⟨hconstraints, hafter⟩, rfl⟩
  · rintro ⟨hpre, hfound, hpublish, ⟨hconstraints, hafter⟩, rfl⟩
    refine ⟨(), books, run_ok.mpr ⟨hpre, rfl⟩, bind_ok.mpr ⟨(), _, unitOfWork_ok.mpr
      ⟨books.rows.erase pk, ?_, hconstraints, rfl⟩, deleted_ok.mpr ⟨hpublish, hafter, rfl⟩⟩⟩
    exact Atomic.bind_ok.mpr
      ⟨(), books.rows, findDeletable_ok.mpr ⟨hfound, rfl⟩, Atomic.modify_ok.mpr rfl⟩

/-- Everything that a deletion of the keys needs, apart from the checks that look at the rows. -/
structure Deletable (s : HookedService PK E C R X) (rows : Dict PK E) (pks : List PK) : Prop where
  preCheck : pks ≠ [] → s.preCheck = .ok ()
  found : ∀ pk ∈ pks, ∃ entity, s.Found rows pk entity
  publish : ∀ pk ∈ pks, s.publish (s.deletedEvent pk) = .ok ()

def Permits (s : HookedService PK E C R X) (rows : Dict PK E) (pk : PK) : Prop :=
  ∀ entity, rows.get? pk = some entity → s.MayDelete rows pk entity

def DeleteTogether (s : HookedService PK E C R X) (rows : Dict PK E) (pks : List PK) : Prop :=
  ∀ pk ∈ pks, s.Permits rows pk ∧ s.Releases (dropRows rows pks) pk

def DeleteOneByOne (s : HookedService PK E C R X) : Dict PK E → List PK → Prop
  | _, [] => True
  | rows, pk :: pks =>
    (s.Permits rows pk ∧ s.Releases (rows.erase pk) pk) ∧ s.DeleteOneByOne (rows.erase pk) pks

theorem permits_iff {entity : E} (h : s.Found rows pk entity) :
    s.Permits rows pk ↔ s.MayDelete rows pk entity := by
  constructor
  · exact fun hpermits => hpermits entity h.1
  · intro hmay entity' hget
    rw [h.1] at hget
    cases hget
    exact hmay

theorem found_erase {pk' : PK} {entity : E} :
    s.Found (rows.erase pk) pk' entity ↔ pk' ≠ pk ∧ s.Found rows pk' entity := by
  unfold Found
  rw [Dict.get?_erase]
  by_cases h : pk' = pk
  · rw [if_pos h]
    exact iff_of_false (fun hfound => by cases hfound.1) fun hfound => hfound.1 h
  · rw [if_neg h, and_iff_right h]

theorem deletable_cons : s.Deletable rows (pk :: pks) ∧ pk ∉ pks ↔
    (s.preCheck = .ok () ∧ (∃ entity, s.Found rows pk entity) ∧
      s.publish (s.deletedEvent pk) = .ok ()) ∧ s.Deletable (rows.erase pk) pks := by
  constructor
  · rintro ⟨⟨hpre, hfound, hpublish⟩, hnew⟩
    obtain ⟨hhead, htail⟩ := forall_mem_cons.mp hfound
    obtain ⟨hevent, hevents⟩ := forall_mem_cons.mp hpublish
    have hpre := hpre (cons_ne_nil _ _)
    refine ⟨⟨hpre, hhead, hevent⟩, fun _ => hpre, fun pk' hpk' => ?_, hevents⟩
    obtain ⟨entity, hentity⟩ := htail pk' hpk'
    exact ⟨entity, found_erase.mpr ⟨fun heq => hnew (heq ▸ hpk'), hentity⟩⟩
  · rintro ⟨⟨hpre, hhead, hevent⟩, -, htail, hevents⟩
    have hother : ∀ pk' ∈ pks, pk' ≠ pk ∧ ∃ entity, s.Found rows pk' entity := by
      intro pk' hpk'
      obtain ⟨entity, hentity⟩ := htail pk' hpk'
      obtain ⟨hne, hentity⟩ := found_erase.mp hentity
      exact ⟨hne, entity, hentity⟩
    exact ⟨⟨fun _ => hpre, forall_mem_cons.mpr ⟨hhead, fun pk' hpk' => (hother pk' hpk').2⟩,
      forall_mem_cons.mpr ⟨hevent, hevents⟩⟩, fun hmem => (hother pk hmem).1 rfl⟩

/-- **One after the other**, the keys are deleted if none is repeated and every check passes with
the rows that those before have left. -/
theorem deleteEach_ok : (∃ us, (pks.mapM s.delete).outcome books = (.ok us, books')) ↔
    s.Deletable books.rows pks ∧ pks.Nodup ∧ s.DeleteOneByOne books.rows pks ∧
      books' = ⟨dropRows books.rows pks, books.events ++ pks.map s.deletedEvent,
        books.commits + pks.length⟩ := by
  induction pks generalizing books with
  | nil =>
    constructor
    · rintro ⟨us, hnil⟩
      obtain ⟨-, rfl⟩ := mapM_nil_ok.mp hnil
      exact ⟨⟨fun h => absurd rfl h, by simp, by simp⟩, nodup_nil, trivial, by simp [dropRows]⟩
    · rintro ⟨-, -, -, rfl⟩
      exact ⟨[], mapM_nil_ok.mpr ⟨rfl, by simp [dropRows]⟩⟩
  | cons pk pks ih =>
    have hlog : ∀ n : ℕ, (⟨dropRows books.rows (pk :: pks),
        books.events ++ (pk :: pks).map s.deletedEvent, n⟩ : Books PK E R) =
        ⟨dropRows (books.rows.erase pk) pks,
          (books.events ++ [s.deletedEvent pk]) ++ pks.map s.deletedEvent, n⟩ := by
      intro n
      simp [dropRows]
    rw [length_cons, hlog]
    simp only [mapM_cons_ok, nodup_cons]
    constructor
    · rintro ⟨_, _, books₁, us, hdelete, hrest, rfl⟩
      obtain ⟨hpre, ⟨entity, hfound, hmay⟩, hpublish, hreleases, rfl⟩ := delete_ok.mp hdelete
      obtain ⟨hdeletable, hnodup, hchecks, rfl⟩ := ih.mp ⟨us, hrest⟩
      obtain ⟨hdeletable, hnew⟩ := deletable_cons.mpr
        ⟨⟨hpre, ⟨entity, hfound⟩, hpublish⟩, hdeletable⟩
      refine ⟨hdeletable, ⟨hnew, hnodup⟩, ⟨⟨(permits_iff hfound).mpr hmay, hreleases⟩, hchecks⟩, ?_⟩
      simp [Nat.add_comm, Nat.add_left_comm]
    · rintro ⟨hdeletable, ⟨hnew, hnodup⟩, ⟨⟨hpermits, hreleases⟩, hchecks⟩, rfl⟩
      obtain ⟨⟨hpre, ⟨entity, hfound⟩, hpublish⟩, hdeletable⟩ :=
        deletable_cons.mp ⟨hdeletable, hnew⟩
      have hloop : ∃ us, (pks.mapM s.delete).outcome ⟨books.rows.erase pk,
          books.events ++ [s.deletedEvent pk], books.commits + 1⟩ = (.ok us,
            ⟨dropRows (books.rows.erase pk) pks,
              (books.events ++ [s.deletedEvent pk]) ++ pks.map s.deletedEvent,
              books.commits + (pks.length + 1)⟩) :=
        ih.mpr ⟨hdeletable, hnodup, hchecks, by simp [Nat.add_comm, Nat.add_left_comm]⟩
      obtain ⟨us, hrest⟩ := hloop
      have hmay := (permits_iff hfound).mp hpermits
      exact ⟨() :: us, (), _, us,
        delete_ok.mpr ⟨hpre, ⟨entity, hfound, hmay⟩, hpublish, hreleases, rfl⟩, hrest, rfl⟩

omit [DecidableEq PK] in
theorem deletedAll_ok : (∃ us, (pks.mapM s.deleted).outcome books = (.ok us, books')) ↔
    (∀ pk ∈ pks, s.publish (s.deletedEvent pk) = .ok () ∧ s.afterDelete books.rows pk = .ok ()) ∧
      books' = { books with events := books.events ++ pks.map s.deletedEvent } :=
  publishAll_ok s.deletedEvent fun pk rows => s.afterDelete rows pk

theorem findAll_ok : (∃ us, pks.mapM s.findDeletable rows = .ok (us, rows')) ↔
    (∀ pk ∈ pks, ∃ entity, s.Found rows pk entity ∧ s.MayDelete rows pk entity) ∧ rows' = rows := by
  have hstep : ∀ (pk : PK) (u : Unit) (rows' : Dict PK E),
      s.findDeletable pk rows = .ok (u, rows') ↔
      (∃ entity, s.Found rows pk entity ∧ s.MayDelete rows pk entity) ∧ rows' = rows :=
    fun _ _ _ => findDeletable_ok
  simp only [Atomic.mapM_look_ok hstep]
  constructor
  · rintro ⟨us, hall, rfl⟩
    refine ⟨fun pk hpk => ?_, rfl⟩
    induction hall with
    | nil => exact absurd hpk not_mem_nil
    | cons hfound _ ih =>
      rcases mem_cons.mp hpk with rfl | hpk
      · exact hfound
      · exact ih hpk
  · rintro ⟨hall, rfl⟩
    refine ⟨pks.map fun _ => (), ?_, rfl⟩
    rw [forall₂_map_right_iff]
    exact forall₂_same.mpr hall

/-- **As a batch**, the keys are deleted if every check passes with the rows before the batch, and
after it, however often a key is repeated. -/
theorem deleteMany_ok {u : Unit} (hpks : pks ≠ []) :
    (s.deleteMany pks).outcome books = (.ok u, books') ↔
      s.Deletable books.rows pks ∧ s.DeleteTogether books.rows pks ∧
        books' = ⟨dropRows books.rows pks, books.events ++ pks.map s.deletedEvent,
          books.commits + 1⟩ := by
  unfold deleteMany
  rw [if_neg (by simpa using hpks), bind_ok]
  constructor
  · rintro ⟨_, books₁, h₁, k₁⟩
    obtain ⟨_, books₂, h₂, k₂⟩ := bind_ok.mp k₁
    obtain ⟨us, books₃, h₃, k₃⟩ := bind_ok.mp k₂
    obtain ⟨hpre, rfl⟩ := run_ok.mp h₁
    obtain ⟨rows, hbody, hconstraints, rfl⟩ := unitOfWork_ok.mp h₂
    obtain ⟨hlast, rfl⟩ := deletedAll_ok.mp ⟨us, h₃⟩
    obtain ⟨-, rfl⟩ := pure_ok.mp k₃
    obtain ⟨us', rows₁, g₁, g₂⟩ := Atomic.bind_ok.mp hbody
    obtain ⟨hfound, rfl⟩ := findAll_ok.mp ⟨us', g₁⟩
    obtain rfl := Atomic.modify_ok.mp g₂
    refine ⟨⟨fun _ => hpre, fun pk hpk => ?_, fun pk hpk => (hlast pk hpk).1⟩,
      fun pk hpk => ?_, rfl⟩
    · obtain ⟨entity, hentity, -⟩ := hfound pk hpk
      exact ⟨entity, hentity⟩
    · obtain ⟨entity, hentity, hmay⟩ := hfound pk hpk
      exact ⟨(permits_iff hentity).mpr hmay, hconstraints, (hlast pk hpk).2⟩
  · rintro ⟨⟨hpre, hfound, hpublish⟩, htogether, rfl⟩
    obtain ⟨first, hfirst⟩ := exists_mem_of_ne_nil pks hpks
    have hconstraints := (htogether first hfirst).2.1
    obtain ⟨us', hfind⟩ : ∃ us, pks.mapM s.findDeletable books.rows = .ok (us, books.rows) := by
      refine findAll_ok.mpr ⟨fun pk hpk => ?_, rfl⟩
      obtain ⟨entity, hentity⟩ := hfound pk hpk
      exact ⟨entity, hentity, (permits_iff hentity).mp (htogether pk hpk).1⟩
    have hlast : ∃ us, (pks.mapM s.deleted).outcome
        ⟨dropRows books.rows pks, books.events, books.commits + 1⟩ =
          (.ok us, ⟨dropRows books.rows pks, books.events ++ pks.map s.deletedEvent,
            books.commits + 1⟩) :=
      deletedAll_ok.mpr ⟨fun pk hpk => ⟨hpublish pk hpk, (htogether pk hpk).2.2⟩, rfl⟩
    obtain ⟨us, hlast⟩ := hlast
    refine ⟨(), books, run_ok.mpr ⟨hpre hpks, rfl⟩, bind_ok.mpr ⟨(), _, unitOfWork_ok.mpr
      ⟨dropRows books.rows pks, ?_, hconstraints, rfl⟩, bind_ok.mpr ⟨us, _, hlast,
        pure_ok.mpr ⟨rfl, rfl⟩⟩⟩⟩
    exact Atomic.bind_ok.mpr ⟨us', books.rows, hfind, Atomic.modify_ok.mpr rfl⟩

theorem deleteMany_nil : (s.deleteMany []).outcome books = (.ok (), books) := rfl

/-- An `EntityDeletedEvent` of a key. -/
def deletes (pk : PK) : EntityEvent PK R → Bool
  | .deleted pk' _ => pk' = pk
  | _ => false

/-- The two forms agree on what they delete, and every row that a batch removes has one event. -/
structure DeletesAlike (s : HookedService PK E C R X) (books : Books PK E R) (pks : List PK) :
    Prop where
  succeeds : (∃ u books', (s.deleteMany pks).outcome books = (.ok u, books')) ↔
    ∃ us books', (pks.mapM s.delete).outcome books = (.ok us, books')
  same : ∀ u books' us books'', (s.deleteMany pks).outcome books = (.ok u, books') →
    (pks.mapM s.delete).outcome books = (.ok us, books'') → books'.rows = books''.rows
  once : ∀ u books', (s.deleteMany pks).outcome books = (.ok u, books') →
    ∃ published, books'.events = books.events ++ published ∧
      ∀ pk, published.countP (deletes pk) =
        if (books.rows.get? pk).isSome ∧ books'.rows.get? pk = none then 1 else 0

/-- The checks that look at the rows pass for the batch exactly if no key is repeated and they pass
one by one, unless something else stands in the way of both. -/
def DeletionsAlike (s : HookedService PK E C R X) (rows : Dict PK E) (pks : List PK) : Prop :=
  s.Deletable rows pks → (s.DeleteTogether rows pks ↔ pks.Nodup ∧ s.DeleteOneByOne rows pks)

theorem get?_dropRows (rows : Dict PK E) (pks : List PK) (pk : PK) :
    (dropRows rows pks).get? pk = if pk ∈ pks then none else rows.get? pk :=
  Dict.get?_foldl_erase rows pks pk

theorem countP_deletedEvent (hnodup : pks.Nodup) (pk : PK) :
    (pks.map s.deletedEvent).countP (deletes pk) = if pk ∈ pks then 1 else 0 := by
  rw [countP_map]
  have hcount : pks.countP (deletes pk ∘ s.deletedEvent) = pks.count pk := by
    refine countP_congr fun pk' _ => ?_
    simp [deletes, deletedEvent]
  rw [hcount]
  exact hnodup.count

theorem deletesAlike_iff (pks : List PK) :
    s.DeletesAlike books pks ↔ s.DeletionsAlike books.rows pks := by
  by_cases hpks : pks = []
  · subst hpks
    refine iff_of_true ⟨iff_of_true ⟨(), books, deleteMany_nil⟩ ⟨[], books, rfl⟩, ?_, ?_⟩ ?_
    · intro _ _ _ _ h h'
      cases h
      cases h'
      rfl
    · intro _ _ h
      cases h
      refine ⟨[], by simp, fun pk => ?_⟩
      rw [if_neg fun hpk => by rw [hpk.2] at hpk; exact absurd hpk.1 Bool.false_ne_true]
      rfl
    · exact fun _ => iff_of_true (by simp [DeleteTogether]) ⟨nodup_nil, trivial⟩
  constructor
  · rintro ⟨hsucceeds, -, -⟩ hdeletable
    constructor
    · intro htogether
      obtain ⟨us, books', heach⟩ := hsucceeds.mp ⟨(), _, (deleteMany_ok hpks).mpr
        ⟨hdeletable, htogether, rfl⟩⟩
      obtain ⟨-, hnodup, hchecks, -⟩ := deleteEach_ok.mp ⟨us, heach⟩
      exact ⟨hnodup, hchecks⟩
    · rintro ⟨hnodup, hchecks⟩
      obtain ⟨us, heach⟩ := deleteEach_ok.mpr ⟨hdeletable, hnodup, hchecks, rfl⟩
      obtain ⟨u, books', hmany⟩ := hsucceeds.mpr ⟨us, _, heach⟩
      exact ((deleteMany_ok hpks).mp hmany).2.1
  · intro halike
    refine ⟨⟨?_, ?_⟩, ?_, ?_⟩
    · rintro ⟨_, _, hmany⟩
      obtain ⟨hdeletable, htogether, -⟩ := (deleteMany_ok hpks).mp hmany
      obtain ⟨hnodup, hchecks⟩ := (halike hdeletable).mp htogether
      obtain ⟨us, heach⟩ := deleteEach_ok.mpr ⟨hdeletable, hnodup, hchecks, rfl⟩
      exact ⟨us, _, heach⟩
    · rintro ⟨us, _, heach⟩
      obtain ⟨hdeletable, hnodup, hchecks, -⟩ := deleteEach_ok.mp ⟨us, heach⟩
      exact ⟨(), _, (deleteMany_ok hpks).mpr
        ⟨hdeletable, (halike hdeletable).mpr ⟨hnodup, hchecks⟩, rfl⟩⟩
    · intro _ _ us _ hmany heach
      obtain ⟨-, -, rfl⟩ := (deleteMany_ok hpks).mp hmany
      obtain ⟨-, -, -, rfl⟩ := deleteEach_ok.mp ⟨us, heach⟩
      rfl
    · intro _ _ hmany
      obtain ⟨hdeletable, htogether, rfl⟩ := (deleteMany_ok hpks).mp hmany
      obtain ⟨hnodup, -⟩ := (halike hdeletable).mp htogether
      refine ⟨_, rfl, fun pk => ?_⟩
      rw [countP_deletedEvent hnodup, get?_dropRows]
      by_cases hpk : pk ∈ pks
      · obtain ⟨entity, hget, -⟩ := hdeletable.found pk hpk
        simp [hpk, hget]
      · rw [if_neg hpk, if_neg hpk, if_neg]
        rintro ⟨hsome, hnone⟩
        rw [hnone] at hsome
        exact absurd hsome Bool.false_ne_true

end

/-! ## Before the commit -/

section

variable {books books' : Books PK E R}

def NoCommit {α : Type} (p : HookedM PK E R X α) : Prop :=
  ∀ books, (p.outcome books).2.commits = books.commits

namespace NoCommit

variable {α β : Type} {p : HookedM PK E R X α} {f : α → HookedM PK E R X β}

theorem bind (hp : NoCommit p) (hf : ∀ a, NoCommit (f a)) : NoCommit (p >>= f) := by
  intro books
  have hbooks := hp books
  rw [outcome_bind]
  revert hbooks
  obtain ⟨r, books'⟩ := p.outcome books
  intro hbooks
  cases r with
  | ok a => exact (hf a books').trans hbooks
  | error e => exact hbooks

theorem mapM {l : List β} {f : β → HookedM PK E R X α} (hf : ∀ b, NoCommit (f b)) :
    NoCommit (l.mapM f) := by
  induction l with
  | nil => exact fun _ => rfl
  | cons b l ih =>
    rw [mapM_cons]
    exact (hf b).bind fun _ => ih.bind fun _ _ => rfl

theorem run (hook : Dict PK E → Except X Unit) : NoCommit (run hook : HookedM PK E R X Unit) :=
  fun _ => rfl

theorem publishEvent (event : EntityEvent PK R) : NoCommit (s.publishEvent event) :=
  (run _).bind fun _ _ => rfl

theorem created (pk : PK) (entity : E) (readDto : R) : NoCommit (s.created pk entity readDto) :=
  (publishEvent _).bind fun _ => run _

theorem deleted (pk : PK) : NoCommit (s.deleted pk) := (publishEvent _).bind fun _ => run _

end NoCommit

/-- An operation that, if it raises and has committed nothing, has done nothing. -/
def AllOrNothing {α : Type} (p : HookedM PK E R X α) : Prop :=
  ∀ books e books', p.outcome books = (.error e, books') → books'.commits = books.commits →
    books' = books

theorem AllOrNothing.run_bind {α : Type} {hook : Dict PK E → Except X Unit}
    {f : Unit → HookedM PK E R X α} (hf : ∀ u, AllOrNothing (f u)) :
    AllOrNothing (run hook >>= f) := by
  intro books e books' h hcommits
  rcases bind_error.mp h with herror | ⟨u, books₁, hrun, hrest⟩
  · exact (Prod.mk.inj herror).2.symm
  · obtain ⟨-, rfl⟩ := run_ok.mp hrun
    exact hf u _ e books' hrest hcommits

/-- What raises after a unit of work raises after its commit. -/
theorem AllOrNothing.unitOfWork_bind {α β : Type} {body : RowsM PK E X α}
    {f : α → HookedM PK E R X β} (hf : ∀ a, NoCommit (f a)) :
    AllOrNothing (s.unitOfWork body >>= f) := by
  intro books e books' h hcommits
  rcases bind_error.mp h with herror | ⟨a, books₁, hwork, hrest⟩
  · exact transaction_error herror
  · obtain ⟨rows, -, -, rfl⟩ := unitOfWork_ok.mp hwork
    have hkept := hf a ⟨rows, books.events, books.commits + 1⟩
    rw [hrest] at hkept
    exact absurd (hcommits.symm.trans hkept) (Nat.ne_of_lt (Nat.lt_succ_self _))

variable [DecidableEq PK]

theorem allOrNothing_createMany (dtos : List (C × PK)) : AllOrNothing (s.createMany dtos) := by
  unfold createMany
  split
  · rintro books e books' ⟨⟩
  · refine .run_bind fun _ => .run_bind fun _ => .unitOfWork_bind fun items => ?_
    exact (NoCommit.mapM fun _ => .created _ _ _).bind fun _ _ => rfl

theorem allOrNothing_deleteMany (pks : List PK) : AllOrNothing (s.deleteMany pks) := by
  unfold deleteMany
  split
  · rintro books e books' ⟨⟩
  · refine .run_bind fun _ => .unitOfWork_bind fun _ => ?_
    exact (NoCommit.mapM fun _ => .deleted _).bind fun _ _ => rfl

end

/-! ## Bulk and single -/

/-- The bulk operations do what the single ones do. -/
structure BulkAgrees [DecidableEq PK] (s : HookedService PK E C R X) (books : Books PK E R)
    (dtos : List (C × PK)) (pks : List PK) : Prop where
  creates : s.CreatesAlike books dtos
  deletes : s.DeletesAlike books pks
  untouchedByCreate : AllOrNothing (s.createMany dtos)
  untouchedByDelete : AllOrNothing (s.deleteMany pks)

/-- **Bulk operations agree with single ones** exactly if the checks that look at the rows do not
tell them apart, and no key of a batch that could be deleted is repeated. -/
theorem bulkAgrees_iff [DecidableEq PK] (s : HookedService PK E C R X) (books : Books PK E R)
    (dtos : List (C × PK)) (pks : List PK) :
    s.BulkAgrees books dtos pks ↔
      s.ChecksAlike books.rows dtos ∧ s.DeletionsAlike books.rows pks := by
  constructor
  · intro h
    exact ⟨(createsAlike_iff dtos).mp h.creates, (deletesAlike_iff pks).mp h.deletes⟩
  · rintro ⟨hchecks, hdeletions⟩
    exact ⟨(createsAlike_iff dtos).mpr hchecks, (deletesAlike_iff pks).mpr hdeletions,
      allOrNothing_createMany dtos, allOrNothing_deleteMany pks⟩

/-- A service in which nothing is refused but a key that is missing, or there twice. -/
def permissive : HookedService Bool Unit Unit Unit Bool where
  tenantId := none
  preCheck := .ok ()
  authorize _ _ _ := .ok ()
  toDomain _ := .ok ()
  prepareForCreate _ := .ok ()
  validateEntity _ := .ok ()
  validateEntityAsync _ _ := .ok ()
  checkEntity _ _ := .ok ()
  asyncCheckEntity _ _ _ := .ok ()
  toReadDto _ _ := .ok ()
  publish _ := .ok ()
  afterCreate _ _ _ _ := .ok ()
  afterDelete _ _ := .ok ()
  constraints _ := .ok ()
  notFound pk := pk
  conflict pk := pk

/-- A key that is given twice is deleted once, with two events, though the second deletion of it
would have failed. -/
theorem deleted_twice :
    ¬permissive.BulkAgrees ⟨Dict.empty.set true (), [], 0⟩ [] [true, true] := by
  intro hagrees
  obtain ⟨us, books', heach⟩ := hagrees.deletes.succeeds.mp ⟨(), _, rfl⟩
  cases heach

end HookedService

end AsyncService

end Varco
