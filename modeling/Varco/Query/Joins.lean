import Varco.Query.SqlCompiler

/-!
# Filters over relationships

`SQLAlchemyQueryApplicator.apply_query` of `varco_sa.query.applicator`: the relationships that the
compiler has collected are joined, each with an `INNER JOIN`, and the expression becomes the `WHERE`
clause. A row that lacks one of the joined relationships is gone before the clause is read, also if
another branch of the filter would have taken it; and a table that two relationships lead to stands
twice under one name in the statement, which the server refuses. `applyQuery_exact_iff` says that
these are the only ways in which the result can differ from the rows that satisfy the filter.
-/

namespace Varco

open Function List

variable {M R : Type}

/-! ## Paths -/

/-- The relationships of a field path, which lead to the class of its column. -/
def pathRelationships (fieldPath : String) : List String := (pySplit '.' fieldPath).dropLast

def pathColumn (fieldPath : String) : String := (pySplit '.' fieldPath).getLastD ""

def target (graph : M → Mapper M) (join : Attribute M) : Option M :=
  (graph join.1).relationships.lookup join.2

def targetTable (graph : M → Mapper M) (join : Attribute M) : Option String :=
  (target graph join).map fun model => (graph model).tablename

def hops (graph : M → Mapper M) (model : M) : List String → List (Attribute M)
  | [] => []
  | relName :: rest =>
    (model, relName) ::
      match target graph (model, relName) with
      | some next => hops graph next rest
      | none => []

def arrival (graph : M → Mapper M) (model : M) : List String → M
  | [] => model
  | relName :: rest =>
    match target graph (model, relName) with
    | some next => arrival graph next rest
    | none => model

def TransformerNode.hops (graph : M → Mapper M) (model : M) (node : TransformerNode) :
    List (Attribute M) :=
  node.leaves.flatMap fun leaf => Varco.hops graph model (pathRelationships leaf.field)

/-! ## Databases -/

/-- The content of a database: the rows of each class, the values of their columns, and the row
that a to-one relationship leads to, if there is one. -/
structure Database (M R : Type) where
  rows : M → List R
  value : R → String → Option Scalar
  related : R → String → Option R

namespace Database

def follow (db : Database M R) (row : R) : List String → Option R
  | [] => some row
  | relName :: rest => (db.related row relName).bind fun next => db.follow next rest

/-- The value at a field path, read along its own chain; a missing relationship gives `NULL`. -/
def pathValue (db : Database M R) (row : R) (fieldPath : String) : Option Scalar :=
  (db.follow row (pathRelationships fieldPath)).bind fun leaf =>
    db.value leaf (pathColumn fieldPath)

def satisfies (db : Database M R) (like : String → String → Bool) (node : TransformerNode)
    (row : R) : Bool :=
  (node.reads fun leaf => leaf.truth like (db.pathValue row leaf.field)) == .true

end Database

/-! ## Statements -/

/-- A `Select` of the rows of one class. -/
structure Select (M : Type) where
  model : M
  joins : List (Attribute M) := []
  conditions : List (SqlExpr M) := []

/-- `query.join(rel_attr)` -/
def Select.join (query : Select M) (join : Attribute M) : Select M :=
  { query with joins := query.joins ++ [join] }

/-- `query.where(expr)` -/
def Select.where_ (query : Select M) (expr : SqlExpr M) : Select M :=
  { query with conditions := query.conditions ++ [expr] }

/-- The tables of the `FROM` clause. -/
def Select.tables (graph : M → Mapper M) (query : Select M) : List (Option String) :=
  some (graph query.model).tablename :: query.joins.map (targetTable graph)

/-- A row of the joined tables: the row of each class that is in it. -/
abbrev JoinedRow (M R : Type) := M → Option R

def columnValue (db : Database M R) (joined : JoinedRow M R) (column : Attribute M) :
    Option Scalar :=
  (joined column.1).bind fun row => db.value row column.2

section

variable [DecidableEq M]

/-- `INNER JOIN`: the related row joins the row, or the row is dropped. -/
def innerJoin (graph : M → Mapper M) (db : Database M R) (joined : JoinedRow M R)
    (join : Attribute M) : Option (JoinedRow M R) := do
  let model ← target graph join
  let row ← joined join.1
  let next ← db.related row join.2
  return update joined model (some next)

def startRow (model : M) (row : R) : JoinedRow M R := update (fun _ => none) model (some row)

def joinRow (graph : M → Mapper M) (db : Database M R) (model : M) (joins : List (Attribute M))
    (row : R) : Option (JoinedRow M R) :=
  joins.foldlM (innerJoin graph db) (startRow model row)

/-- The rows that a statement returns. The server refuses a statement that has a table twice under
one name. -/
def Select.execute (graph : M → Mapper M) (db : Database M R) (like : String → String → Bool)
    (query : Select M) : Option (List R) :=
  if (query.tables graph).Nodup then
    some ((db.rows query.model).filter fun row =>
      (joinRow graph db query.model query.joins row).any fun joined =>
        query.conditions.all fun expr => expr.truth like (columnValue db joined) == .true)
  else none

/-- `SQLAlchemyQueryApplicator.apply_query` -/
def applyQuery (compiler : SQLAlchemyQueryCompiler M) (query : Select M) (node : TransformerNode) :
    Except PyException (Select M) := do
  let (filterExpr, pending) ← compiler.visit node []
  return (pending.foldl Select.join query).where_ filterExpr

end

/-! ## What is collected -/

theorem pySplit_flat {fieldPath : String} (h : fieldPath.toList.contains '.' = false) :
    pySplit '.' fieldPath = [fieldPath] := by
  have hnot : ∀ c ∈ fieldPath.toList, decide (c = '.') = false := by
    intro c hc
    rw [decide_eq_false_iff_not]
    rintro rfl
    simp [hc] at h
  rw [pySplit, splitWhen_eq_singleton hnot]
  simp

namespace SQLAlchemyQueryCompiler

variable [DecidableEq M] {compiler : SQLAlchemyQueryCompiler M}

def collect (pending joins : List (Attribute M)) : List (Attribute M) :=
  joins.foldl (fun pending join => noteJoin join pending) pending

theorem collect_cons (pending : List (Attribute M)) (join : Attribute M)
    (joins : List (Attribute M)) :
    collect pending (join :: joins) = collect (noteJoin join pending) joins := rfl

variable {pending : List (Attribute M)}

theorem mem_noteJoin {join j : Attribute M} :
    j ∈ noteJoin join pending ↔ j ∈ pending ∨ j = join := by
  unfold noteJoin
  split
  · exact ⟨.inl, fun h => h.elim id fun h => h ▸ ‹join ∈ pending›⟩
  · simp

theorem mem_collect {joins : List (Attribute M)} {j : Attribute M} :
    j ∈ collect pending joins ↔ j ∈ pending ∨ j ∈ joins := by
  induction joins generalizing pending with
  | nil => simp [collect]
  | cons join joins ih =>
    rw [collect_cons, ih, mem_noteJoin, mem_cons, or_assoc]

theorem nodup_noteJoin {join : Attribute M} (h : pending.Nodup) :
    (noteJoin join pending).Nodup := by
  unfold noteJoin
  split
  case isTrue => exact h
  case isFalse hnot =>
    refine nodup_append.mpr ⟨h, nodup_singleton join, fun a ha b hb hab => ?_⟩
    exact hnot (mem_singleton.mp hb ▸ hab ▸ ha)

theorem nodup_collect {joins : List (Attribute M)} (h : pending.Nodup) :
    (collect pending joins).Nodup := by
  induction joins generalizing pending with
  | nil => exact h
  | cons join joins ih => exact ih (nodup_noteJoin h)

variable {s s' : List (Attribute M)}

theorem traverse_ok {model m : M} {rels : List String}
    (h : compiler.traverse model rels s = .ok (m, s')) :
    m = arrival compiler.graph model rels ∧ s' = collect s (hops compiler.graph model rels) ∧
      ∀ j ∈ hops compiler.graph model rels, (target compiler.graph j).isSome := by
  induction rels generalizing model s with
  | nil =>
    obtain ⟨rfl, rfl⟩ := Compile.pure_ok.mp h
    exact ⟨rfl, rfl, fun j hj => nomatch hj⟩
  | cons relName rest ih =>
    unfold traverse at h
    cases hlookup : (compiler.graph model).relationships.lookup relName with
    | none =>
      simp only [hlookup] at h
      cases h
    | some next =>
      simp only [hlookup] at h
      obtain ⟨u, s₁, hs₁, h⟩ := Compile.bind_ok.mp h
      obtain rfl : noteJoin (model, relName) s = s₁ := by
        cases hs₁
        rfl
      have htarget : target compiler.graph (model, relName) = some next := hlookup
      obtain ⟨hm, hs', hsome⟩ := ih h
      simp only [arrival, hops, htarget]
      refine ⟨hm, hs', fun j hj => ?_⟩
      rcases mem_cons.mp hj with rfl | hj
      · exact Option.isSome_of_eq_some htarget
      · exact hsome j hj

/-- A field path leads along its relationships, and notes them. -/
theorem resolveColumn_ok {fieldPath : String} {column : Attribute M}
    (h : compiler.resolveColumn fieldPath s = .ok (column, s')) :
    let way := pathRelationships fieldPath
    column = (arrival compiler.graph compiler.model way, pathColumn fieldPath) ∧
      s' = collect s (hops compiler.graph compiler.model way) ∧
      ∀ j ∈ hops compiler.graph compiler.model way, (target compiler.graph j).isSome := by
  unfold resolveColumn at h
  cases hdot : fieldPath.toList.contains '.' with
  | false =>
    simp only [hdot, Bool.not_false, if_true] at h
    obtain ⟨hc, rfl⟩ := Compile.lift_ok.mp h
    simp only [pathRelationships, pathColumn, pySplit_flat hdot]
    exact ⟨getColumn_ok hc, rfl, fun j hj => nomatch hj⟩
  | true =>
    simp only [hdot, Bool.not_true, Bool.false_eq_true, if_false] at h
    split at h
    · cases h
    · cases hfind : (pySplit '.' fieldPath).find? fun segment => !safeSegment segment with
      | some segment =>
        simp only [hfind] at h
        cases h
      | none =>
        simp only [hfind] at h
        obtain ⟨m, s₁, hm, h⟩ := Compile.bind_ok.mp h
        obtain ⟨hc, rfl⟩ := Compile.lift_ok.mp h
        obtain ⟨rfl, hs, hsome⟩ := traverse_ok hm
        exact ⟨getColumn_ok hc, hs, hsome⟩

theorem collect_append (pending joins joins' : List (Attribute M)) :
    collect pending (joins ++ joins') = collect (collect pending joins) joins' :=
  foldl_append

/-- A visit notes the relationships of the tree, and each of them leads to a class. -/
theorem visit_ok {node : TransformerNode} {e : SqlExpr M}
    (h : compiler.visit node s = .ok (e, s')) :
    s' = collect s (node.hops compiler.graph compiler.model) ∧
      ∀ j ∈ node.hops compiler.graph compiler.model, (target compiler.graph j).isSome := by
  induction node generalizing s s' e with
  | comparison node =>
    obtain ⟨column, hc, -⟩ := visitComparison_ok h
    obtain ⟨-, hs, hsome⟩ := resolveColumn_ok hc
    simp only [TransformerNode.hops, TransformerNode.leaves, flatMap_cons, flatMap_nil,
      append_nil]
    exact ⟨hs, hsome⟩
  | and left right ihl ihr | or left right ihl ihr =>
    obtain ⟨l, s₁, hl, h⟩ := Compile.bind_ok.mp h
    obtain ⟨r, s₂, hr, h⟩ := Compile.bind_ok.mp h
    obtain ⟨-, rfl⟩ := Compile.pure_ok.mp h
    obtain ⟨rfl, hleft⟩ := ihl hl
    obtain ⟨rfl, hright⟩ := ihr hr
    simp only [TransformerNode.hops, TransformerNode.leaves, flatMap_append]
    exact ⟨(collect_append _ _ _).symm, forall_mem_append.mpr ⟨hleft, hright⟩⟩
  | not child ih =>
    obtain ⟨x, s₁, hx, h⟩ := Compile.bind_ok.mp h
    obtain ⟨-, rfl⟩ := Compile.pure_ok.mp h
    exact ih hx

end SQLAlchemyQueryCompiler

/-! ## Joined rows -/

/-- No relationship leads back to the table of the selected class, and no two different ones lead to
the same table. -/
structure Apart (graph : M → Mapper M) (model : M) (joins : List (Attribute M)) : Prop where
  base : ∀ j ∈ joins, targetTable graph j ≠ some (graph model).tablename
  inj : ∀ j ∈ joins, ∀ j' ∈ joins, targetTable graph j = targetTable graph j' → j = j'

section

variable [DecidableEq M] {graph : M → Mapper M} {db : Database M R} {model : M} {row : R}

open SQLAlchemyQueryCompiler

/-- The tables of a statement are different if and only if the relationships lead apart. -/
theorem nodup_tables {ways : List (Attribute M)} {conditions : List (SqlExpr M)} :
    (Select.tables graph ⟨model, collect [] ways, conditions⟩).Nodup ↔ Apart graph model ways := by
  have hmem (j : Attribute M) : j ∈ collect [] ways ↔ j ∈ ways := by simp [mem_collect]
  have hnodup : (collect [] ways).Nodup := nodup_collect nodup_nil
  rw [Select.tables, nodup_cons, nodup_map_iff_inj_on hnodup]
  constructor
  · rintro ⟨hbase, hinj⟩
    refine ⟨fun j hj h => hbase (mem_map.mpr ⟨j, (hmem j).mpr hj, h⟩), fun j hj j' hj' h => ?_⟩
    exact hinj j ((hmem j).mpr hj) j' ((hmem j').mpr hj') h
  · rintro ⟨hbase, hinj⟩
    refine ⟨fun h => ?_, fun j hj j' hj' h => hinj j ((hmem j).mp hj) j' ((hmem j').mp hj') h⟩
    obtain ⟨j, hj, h⟩ := mem_map.mp h
    exact hbase j ((hmem j).mp hj) h

/-- What a joined row has in it: the row of the selected class, and for each join the row related
to the row that it comes from. -/
structure Joined (graph : M → Mapper M) (db : Database M R) (model : M) (row : R)
    (joins : List (Attribute M)) (joined : JoinedRow M R) : Prop where
  base : joined model = some row
  related : ∀ j ∈ joins, ∀ next, target graph j = some next → ∃ source r,
    joined j.1 = some source ∧ db.related source j.2 = some r ∧ joined next = some r
  domain : ∀ m r, joined m = some r → m = model ∨ ∃ j ∈ joins, target graph j = some m

theorem joined_start : Joined graph db model row [] (startRow model row) where
  base := update_self ..
  related := nofun
  domain m r h := by
    left
    by_contra hm
    simp [startRow, hm] at h

variable {joined : JoinedRow M R} {joins : List (Attribute M)}

omit [DecidableEq M] in
/-- A class that a new relationship leads to is not in the joined row yet. -/
theorem Joined.fresh {ways : List (Attribute M)} {join : Attribute M}
    {next : M} (h : Joined graph db model row joins joined) (ha : Apart graph model ways)
    (hsub : joins ⊆ ways) (hway : join ∈ ways) (hnew : join ∉ joins)
    (hnext : target graph join = some next) : joined next = none := by
  have htable : targetTable graph join = some (graph next).tablename := by
    rw [targetTable, hnext]
    rfl
  rw [Option.eq_none_iff_forall_ne_some]
  intro r hr
  rcases h.domain next r hr with rfl | ⟨j, hj, hnext'⟩
  · exact ha.base join hway htable
  · have htable' : targetTable graph j = some (graph next).tablename := by
      rw [targetTable, hnext']
      rfl
    exact hnew (ha.inj join hway j (hsub hj) (htable.trans htable'.symm) ▸ hj)

/-- One more join, from a row that is there to a class that is not. -/
theorem Joined.snoc {join : Attribute M}
    {next : M} {source r : R} (h : Joined graph db model row joins joined)
    (hfresh : joined next = none) (hnext : target graph join = some next)
    (hsource : joined join.1 = some source) (hr : db.related source join.2 = some r) :
    Joined graph db model row (joins ++ [join]) (update joined next (some r)) := by
  have keep {m : M} {r' : R} (hm : joined m = some r') :
      update joined next (some r) m = some r' := by
    rw [update_of_ne, hm]
    rintro rfl
    rw [hfresh] at hm
    cases hm
  refine ⟨keep h.base, fun j hj next' hnext' => ?_, fun m r' hm => ?_⟩
  · rcases mem_append.mp hj with hj | hj
    · obtain ⟨source', r', hsource', hr', hjoined⟩ := h.related j hj next' hnext'
      exact ⟨source', r', keep hsource', hr', keep hjoined⟩
    · obtain rfl := mem_singleton.mp hj
      obtain rfl : next = next' := Option.some.inj (hnext.symm.trans hnext')
      exact ⟨source, r, keep hsource, hr, update_self ..⟩
  · by_cases hmn : m = next
    · exact .inr ⟨join, mem_append_right _ (mem_singleton_self join), hmn ▸ hnext⟩
    · rw [update_of_ne hmn] at hm
      rcases h.domain m r' hm with hm | ⟨j, hj, hm⟩
      · exact .inl hm
      · exact .inr ⟨j, mem_append_left _ hj, hm⟩

omit [DecidableEq M] in
/-- A chain whose relationships are all joined leads to the joined row of its class. -/
theorem Joined.follow
    (h : Joined graph db model row joins joined) {m : M} {source : R} {rels : List String}
    (hsource : joined m = some source) (hsub : hops graph m rels ⊆ joins)
    (hsome : ∀ j ∈ hops graph m rels, (target graph j).isSome) :
    ∃ r, db.follow source rels = some r ∧ joined (arrival graph m rels) = some r := by
  induction rels generalizing m source with
  | nil => exact ⟨source, rfl, hsource⟩
  | cons relName rest ih =>
    have hmem : (m, relName) ∈ hops graph m (relName :: rest) := mem_cons_self
    obtain ⟨next, hnext⟩ := Option.isSome_iff_exists.mp (hsome _ hmem)
    obtain ⟨source', r, hsource', hr, hjoined⟩ := h.related _ (hsub hmem) next hnext
    obtain rfl : source = source' := Option.some.inj (hsource.symm.trans hsource')
    have hrest : hops graph next rest ⊆ hops graph m (relName :: rest) := by
      simp only [hops, hnext]
      exact subset_cons_self _ _
    obtain ⟨r', hfollow, harrival⟩ :=
      ih hjoined (List.Subset.trans hrest hsub) fun j hj => hsome j (hrest hj)
    refine ⟨r', ?_, ?_⟩
    · simp only [Database.follow]
      rw [show db.related source relName = some r from hr]
      exact hfollow
    · simp only [arrival, hnext]
      exact harrival

variable {pending : List (Attribute M)}

theorem joinRow_collect_none
    (h : joinRow graph db model pending row = none) :
    joinRow graph db model (collect pending joins) row = none := by
  induction joins generalizing pending with
  | nil => exact h
  | cons join joins ih =>
    rw [collect_cons]
    apply ih
    unfold noteJoin
    split
    case isTrue => exact h
    case isFalse =>
      unfold joinRow at h ⊢
      rw [foldlM_append, h]
      rfl

/-- What one more way, from a class that is joined, makes of a joined row: the row stays if and only
if it has every relationship on the way. -/
theorem joinRow_way {ways : List (Attribute M)}
    (ha : Apart graph model ways) (hpending : pending ⊆ ways)
    (hrow : joinRow graph db model pending row = some joined)
    (hjoined : Joined graph db model row pending joined) {m : M} {source : R}
    (hsource : joined m = some source) {rels : List String} (hsub : hops graph m rels ⊆ ways)
    (hsome : ∀ j ∈ hops graph m rels, (target graph j).isSome) :
    let all := collect pending (hops graph m rels)
    (∃ joined', joinRow graph db model all row = some joined' ∧
        Joined graph db model row all joined' ∧ (db.follow source rels).isSome) ∨
      (joinRow graph db model all row = none ∧ db.follow source rels = none) := by
  induction rels generalizing pending joined m source with
  | nil => exact .inl ⟨joined, hrow, hjoined, rfl⟩
  | cons relName rest ih =>
    have hmem : (m, relName) ∈ hops graph m (relName :: rest) := mem_cons_self
    obtain ⟨next, hnext⟩ := Option.isSome_iff_exists.mp (hsome _ hmem)
    have hall : hops graph m (relName :: rest) = (m, relName) :: hops graph next rest := by
      simp only [hops, hnext]
    rw [hall] at hsub hsome ⊢
    have hrest : hops graph next rest ⊆ ways := fun j hj => hsub (mem_cons_of_mem _ hj)
    have hsomeRest : ∀ j ∈ hops graph next rest, (target graph j).isSome :=
      fun j hj => hsome j (mem_cons_of_mem _ hj)
    have hfollow : db.follow source (relName :: rest) =
        (db.related source relName).bind fun r => db.follow r rest := rfl
    rw [collect_cons]
    by_cases hnoted : (m, relName) ∈ pending
    · obtain ⟨source', r, hsource', hr, hr'⟩ := hjoined.related _ hnoted next hnext
      obtain rfl : source = source' := Option.some.inj (hsource.symm.trans hsource')
      have hstay : noteJoin (m, relName) pending = pending := if_pos hnoted
      rw [hfollow, show db.related source relName = some r from hr, Option.bind_some, hstay]
      exact ih hpending hrow hjoined hr' hrest hsomeRest
    · have hgrow : noteJoin (m, relName) pending = pending ++ [(m, relName)] := if_neg hnoted
      have hstep : joinRow graph db model (pending ++ [(m, relName)]) row =
          innerJoin graph db joined (m, relName) := by
        unfold joinRow at hrow ⊢
        rw [foldlM_append, hrow]
        exact bind_pure (m := Option) _
      rw [hgrow, hfollow]
      cases hr : db.related source relName with
      | none =>
        refine .inr ⟨joinRow_collect_none ?_, rfl⟩
        simp [hstep, innerJoin, hnext, hsource, hr]
      | some r =>
        have hfresh := hjoined.fresh ha hpending (hsub mem_cons_self) hnoted hnext
        have hsnoc := hjoined.snoc hfresh hnext hsource hr
        refine ih (append_subset.mpr ⟨hpending, by simpa using hsub mem_cons_self⟩) ?_
          hsnoc (update_self ..) hrest hsomeRest
        simp [hstep, innerJoin, hnext, hsource, hr]

/-- The ways of several fields: the row stays if and only if it has every relationship on them. -/
theorem joinRow_ways {ways : List (Attribute M)} (ha : Apart graph model ways)
    {leaves : List ComparisonNode}
    (hpending : pending ⊆ ways) (hrow : joinRow graph db model pending row = some joined)
    (hjoined : Joined graph db model row pending joined)
    (hsub : ∀ leaf ∈ leaves, hops graph model (pathRelationships leaf.field) ⊆ ways)
    (hsome : ∀ j ∈ ways, (target graph j).isSome) :
    let all := collect pending
      (leaves.flatMap fun leaf => hops graph model (pathRelationships leaf.field))
    (∃ joined', joinRow graph db model all row = some joined' ∧
        Joined graph db model row all joined' ∧
        ∀ leaf ∈ leaves, (db.follow row (pathRelationships leaf.field)).isSome) ∨
      (joinRow graph db model all row = none ∧
        ∃ leaf ∈ leaves, db.follow row (pathRelationships leaf.field) = none) := by
  induction leaves generalizing pending joined with
  | nil => exact .inl ⟨joined, hrow, hjoined, nofun⟩
  | cons leaf leaves ih =>
    have hway := hsub leaf mem_cons_self
    have hleaves : ∀ l ∈ leaves, hops graph model (pathRelationships l.field) ⊆ ways :=
      fun l hl => hsub l (mem_cons_of_mem leaf hl)
    simp only [flatMap_cons, collect_append]
    rcases joinRow_way ha hpending hrow hjoined hjoined.base hway
      (fun j hj => hsome j (hway hj)) with ⟨joined', hrow', hjoined', hfollow⟩ | ⟨hdrop, hfollow⟩
    · have hpending' : collect pending (hops graph model (pathRelationships leaf.field)) ⊆
        ways := by
        intro j hj
        exact (mem_collect.mp hj).elim (fun h => hpending h) fun h => hway h
      rcases ih hpending' hrow' hjoined' hleaves with
        ⟨joined'', hrow'', hjoined'', hall⟩ | ⟨hdrop, hl⟩
      · exact .inl ⟨joined'', hrow'', hjoined'', forall_mem_cons.mpr ⟨hfollow, hall⟩⟩
      · obtain ⟨l, hl, hnone⟩ := hl
        exact .inr ⟨hdrop, l, mem_cons_of_mem leaf hl, hnone⟩
    · exact .inr ⟨joinRow_collect_none hdrop, leaf, mem_cons_self, hfollow⟩

end

/-! ## What a query returns -/

section

variable [DecidableEq M] {compiler : SQLAlchemyQueryCompiler M} {db : Database M R}
  {node : TransformerNode} {query : Select M}

open SQLAlchemyQueryCompiler

/-- Every field of the filter has its chain of relationships in each row that satisfies the
filter. -/
def ChainsPresent (model : M) (db : Database M R)
    (like : String → String → Bool) (node : TransformerNode) : Prop :=
  ∀ row ∈ db.rows model, db.satisfies like node row →
    ∀ leaf ∈ node.leaves, (db.follow row (pathRelationships leaf.field)).isSome

omit [DecidableEq M] in
theorem foldl_join (query : Select M) (joins : List (Attribute M)) :
    joins.foldl Select.join query = { query with joins := query.joins ++ joins } := by
  induction joins generalizing query with
  | nil => simp
  | cons join joins ih => simp [ih, Select.join]

omit [DecidableEq M] in
theorem filter_eq_filter_iff {rows : List R} {p q : R → Bool} :
    rows.filter p = rows.filter q ↔ ∀ row ∈ rows, p row = q row := by
  constructor
  · intro h row hrow
    have hmem : row ∈ rows.filter p ↔ row ∈ rows.filter q := by rw [h]
    rw [Bool.eq_iff_iff]
    simpa [hrow] using hmem
  · exact filter_congr

/-- A filter selects with the relationships of its fields joined, each once. -/
theorem applyQuery_ok (h : applyQuery compiler ⟨compiler.model, [], []⟩ node = .ok query) :
    ∃ e, compiler.visit node [] =
        .ok (e, collect [] (node.hops compiler.graph compiler.model)) ∧
      query = ⟨compiler.model, collect [] (node.hops compiler.graph compiler.model), [e]⟩ ∧
      ∀ j ∈ node.hops compiler.graph compiler.model, (target compiler.graph j).isSome := by
  unfold applyQuery at h
  cases hvisit : compiler.visit node [] with
  | error e =>
    rw [hvisit] at h
    cases h
  | ok r =>
    obtain ⟨e, pending⟩ := r
    rw [hvisit] at h
    obtain ⟨rfl, hsome⟩ := visit_ok hvisit
    cases h
    refine ⟨e, rfl, ?_, hsome⟩
    rw [foldl_join]
    rfl

/-- A row of the base class stays if it has every relationship of the filter, and then the
expression reads each field along its own chain. -/
theorem joined_satisfies {e : SqlExpr M} {joins : List (Attribute M)}
    (like : String → String → Bool) (h : compiler.visit node [] = .ok (e, joins))
    (ha : Apart compiler.graph compiler.model (node.hops compiler.graph compiler.model))
    (hsome : ∀ j ∈ node.hops compiler.graph compiler.model, (target compiler.graph j).isSome)
    (row : R) :
    ((joinRow compiler.graph db compiler.model
        (collect [] (node.hops compiler.graph compiler.model)) row).any fun joined =>
          [e].all fun expr => expr.truth like (columnValue db joined) == .true) = true ↔
      db.satisfies like node row ∧
        ∀ leaf ∈ node.leaves, (db.follow row (pathRelationships leaf.field)).isSome := by
  have hsub : ∀ leaf ∈ node.leaves, hops compiler.graph compiler.model
      (pathRelationships leaf.field) ⊆ node.hops compiler.graph compiler.model :=
    fun leaf hleaf j hj => mem_flatMap.mpr ⟨leaf, hleaf, hj⟩
  have hways := @joinRow_ways M R _ compiler.graph db compiler.model row _ [] _ ha node.leaves
    (nil_subset _) rfl joined_start hsub hsome
  rcases hways with ⟨joined, hrow, hjoined, hall⟩ | ⟨hdrop, leaf, hleaf, hnone⟩
  · have htruth : e.truth like (columnValue db joined) =
        node.reads fun leaf => leaf.truth like (db.pathValue row leaf.field) := by
      refine truth_of_visit like h fun leaf hleaf column hres => ?_
      obtain ⟨s, s', hres⟩ := hres
      obtain ⟨rfl, -, hsomeLeaf⟩ := resolveColumn_ok hres
      have hcollected : hops compiler.graph compiler.model (pathRelationships leaf.field) ⊆
          collect [] (node.hops compiler.graph compiler.model) :=
        fun j hj => mem_collect.mpr (.inr (hsub leaf hleaf hj))
      obtain ⟨r, hfollow, harrival⟩ := hjoined.follow hjoined.base hcollected hsomeLeaf
      simp only [columnValue, Database.pathValue, hfollow, harrival]
    rw [show joinRow compiler.graph db compiler.model
      (collect [] (node.hops compiler.graph compiler.model)) row = some joined from hrow]
    simp only [Option.any_some, all_cons, all_nil, Bool.and_true, htruth]
    exact ⟨fun hsat => ⟨hsat, hall⟩, fun hsat => hsat.1⟩
  · rw [show joinRow compiler.graph db compiler.model
      (collect [] (node.hops compiler.graph compiler.model)) row = none from hdrop]
    constructor
    · intro hany
      cases hany
    · rintro ⟨-, hall⟩
      have hleafSome := hall leaf hleaf
      rw [hnone] at hleafSome
      cases hleafSome

/-- **When a filter selects exactly the matching rows.** For every graph of classes with to-one
relationships, every filter that the compiler accepts and every content of the database: the
statement returns exactly the rows that satisfy the filter, each field read along its own chain and
`NULL` where a relationship is missing, if and only if no two different relationships of the filter
lead to one table and none back to the selected one, and every row that satisfies the filter has the
whole chain of relationships of every field, also of those in branches that it does not need. -/
theorem applyQuery_exact_iff (compiler : SQLAlchemyQueryCompiler M) (db : Database M R)
    (like : String → String → Bool) (node : TransformerNode) (query : Select M)
    (h : applyQuery compiler ⟨compiler.model, [], []⟩ node = .ok query) :
    query.execute compiler.graph db like =
        some ((db.rows compiler.model).filter (db.satisfies like node)) ↔
      Apart compiler.graph compiler.model (node.hops compiler.graph compiler.model) ∧
        ChainsPresent compiler.model db like node := by
  obtain ⟨e, hvisit, rfl, hsome⟩ := applyQuery_ok h
  unfold Select.execute
  by_cases ha : Apart compiler.graph compiler.model (node.hops compiler.graph compiler.model)
  · rw [if_pos (nodup_tables.mpr ha)]
    have hrow := @joined_satisfies M R _ compiler db node e _ like hvisit ha hsome
    rw [Option.some.injEq, filter_eq_filter_iff]
    constructor
    · intro heq
      refine ⟨ha, fun row hmem hsat => ?_⟩
      exact ((hrow row).mp ((heq row hmem).trans hsat)).2
    · rintro ⟨-, hchains⟩ row hmem
      rw [Bool.eq_iff_iff]
      exact (hrow row).trans ⟨And.left, fun hsat => ⟨hsat, hchains row hmem hsat⟩⟩
  · rw [if_neg (mt nodup_tables.mp ha)]
    exact ⟨nofun, fun hiff => absurd hiff.1 ha⟩

end

/-! ## A branch that removes a row -/

/-- The classes of a blog. -/
inductive BlogClass
  | post
  | author
  deriving DecidableEq

def blogGraph : BlogClass → Mapper BlogClass
  | .post =>
    { name := "Post", tablename := "posts", columns := [("title", .text)]
      relationships := [("author", .author)] }
  | .author =>
    { name := "Author", tablename := "authors", columns := [("name", .text)], relationships := [] }

def blogCompiler : SQLAlchemyQueryCompiler BlogClass := { graph := blogGraph, model := .post }

/-- The rows of the database are numbered: the posts 1, 2 and 3, and the author 10 of the posts 2
and 3. -/
def blog : Database BlogClass ℕ where
  rows
    | .post => [1, 2, 3]
    | .author => [10]
  value
    | 1, "title" => some (.str "draft")
    | 2, "title" => some (.str "draft")
    | 3, "title" => some (.str "news")
    | 10, "name" => some (.str "ann")
    | _, _ => none
  related
    | 2, "author" => some 10
    | 3, "author" => some 10
    | _, _ => none

/-- `title = 'draft'` -/
def draftQuery : TransformerNode :=
  .comparison ⟨"title", .equal, .scalar (.str "draft"), by simp, by simp⟩

/-- `author.name = 'ann'` -/
def annQuery : TransformerNode :=
  .comparison ⟨"author.name", .equal, .scalar (.str "ann"), by simp, by simp⟩

/-- `author.name = 'ann'` returns exactly the posts with that author: they have one. -/
theorem applyQuery_exact_ann :
    Apart blogGraph .post (annQuery.hops blogGraph .post) ∧
      ChainsPresent .post blog (fun _ _ => false) annQuery :=
  (applyQuery_exact_iff blogCompiler blog (fun _ _ => false) annQuery _ rfl).mp (by decide +kernel)

/-- The draft without an author matches `title = 'draft' OR author.name = 'ann'`, as it matches
`title = 'draft'`; but the new branch removes it from the result. -/
theorem applyQuery_drops_a_draft : ∃ alone either : Select BlogClass,
    applyQuery blogCompiler ⟨.post, [], []⟩ draftQuery = .ok alone ∧
      alone.execute blogGraph blog (fun _ _ => false) = some [1, 2] ∧
      applyQuery blogCompiler ⟨.post, [], []⟩ (.or draftQuery annQuery) = .ok either ∧
      either.execute blogGraph blog (fun _ _ => false) = some [2, 3] ∧
      (blog.rows .post).filter (blog.satisfies (fun _ _ => false) (.or draftQuery annQuery)) =
        [1, 2, 3] :=
  ⟨_, _, rfl, by decide +kernel, rfl, by decide +kernel, by decide +kernel⟩

end Varco
