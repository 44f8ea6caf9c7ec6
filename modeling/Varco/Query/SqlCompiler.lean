import Varco.Query.Walking

/-!
# The SQL compiler

`SQLAlchemyQueryCompiler` of `varco_sa.query.compiler`: a query tree becomes a `WHERE` expression
over the columns of mapped classes. A dotted path is followed along the relationships of the
classes, and each relationship on the way is noted once, to be joined later. What SQLAlchemy's
operators build, and what SQL makes of it, is `SqlExpr` and `SqlExpr.truth`; `truth_of_visit` says
that the expression means what the tree means in three-valued logic.
-/

namespace Varco

/-! ## Mapped classes -/

/-- The types of columns. -/
inductive ColumnType
  | number
  | text
  | boolean
  deriving DecidableEq, Repr

def Scalar.columnType : Scalar → ColumnType
  | .int _ => .number
  | .float _ => .number
  | .str _ => .text
  | .bool _ => .boolean

theorem Scalar.compare?_isSome {x y : Scalar} :
    (x.compare? y).isSome ↔ x.columnType = y.columnType := by
  cases x <;> cases y <;> simp [Scalar.compare?, Scalar.number?, Scalar.columnType]

/-- What `sa_inspect` tells of a mapped class: its names, its column attributes and its to-one
relationships with the classes that they lead to. -/
structure Mapper (M : Type) where
  name : String
  tablename : String
  columns : List (String × ColumnType)
  relationships : List (String × M)

/-- A column attribute of a mapped class, or a relationship attribute. -/
abbrev Attribute (M : Type) := M × String

def typeOf {M : Type} (graph : M → Mapper M) (column : Attribute M) : Option ColumnType :=
  (graph column.1).columns.lookup column.2

/-! ## Expressions -/

/-- The expressions that the compiler builds. `not_` stays an operator only around a conjunction,
a disjunction or another `NOT`: SQLAlchemy turns every other operator into its opposite. -/
inductive SqlExpr (M : Type)
  | compare (column : Attribute M) (op : Comparator) (value : Value)
  | isNull (column : Attribute M) (negated : Bool)
  | like (column : Attribute M) (pattern : Value) (negated : Bool)
  | inList (column : Attribute M) (values : List Scalar) (negated : Bool)
  | and (left right : SqlExpr M)
  | or (left right : SqlExpr M)
  | not (inner : SqlExpr M)

def Ternary.notIf (negated : Bool) (t : Ternary) : Ternary := if negated then t.not else t

theorem Ternary.notIf_not (negated : Bool) (t : Ternary) :
    t.notIf (!negated) = (t.notIf negated).not := by
  cases negated <;> cases t <;> rfl

namespace SqlExpr

variable {M : Type}

/-- `not_(inner)` -/
def negate : SqlExpr M → SqlExpr M
  | .compare column op value => .compare column op.negate value
  | .isNull column negated => .isNull column !negated
  | .like column pattern negated => .like column pattern !negated
  | .inList column values negated => .inList column values !negated
  | inner => .not inner

def truth (like : String → String → Bool) (row : Attribute M → Option Scalar) :
    SqlExpr M → Ternary
  | .compare column op value => compareTruth op (row column) value
  | .isNull column negated => (nullTruth (row column)).notIf negated
  | .like column pattern negated => (likeTruth like (row column) pattern).notIf negated
  | .inList column values negated => (inTruth (row column) values).notIf negated
  | .and left right => (left.truth like row).and (right.truth like row)
  | .or left right => (left.truth like row).or (right.truth like row)
  | .not inner => (inner.truth like row).not

/-- `not_` negates. -/
theorem truth_negate (like : String → String → Bool) (row : Attribute M → Option Scalar)
    (e : SqlExpr M) : e.negate.truth like row = (e.truth like row).not := by
  cases e with
  | compare column op value => exact compareTruth_negate op (row column) value
  | isNull column negated => exact Ternary.notIf_not negated _
  | like column pattern negated => exact Ternary.notIf_not negated _
  | inList column values negated => exact Ternary.notIf_not negated _
  | and left right => rfl
  | or left right => rfl
  | not inner => rfl

/-- The server takes the expression: each operand is of the type of its column. -/
def WellTyped (graph : M → Mapper M) : SqlExpr M → Prop
  | .compare column _ value => ∃ y, value = .scalar y ∧ typeOf graph column = some y.columnType
  | .isNull _ _ => True
  | .like column pattern _ =>
    typeOf graph column = some .text ∧ ∃ text, pattern = .scalar (.str text)
  | .inList column values _ => ∀ y ∈ values, typeOf graph column = some y.columnType
  | .and left right => left.WellTyped graph ∧ right.WellTyped graph
  | .or left right => left.WellTyped graph ∧ right.WellTyped graph
  | .not inner => inner.WellTyped graph

theorem wellTyped_negate {graph : M → Mapper M} {e : SqlExpr M} :
    e.negate.WellTyped graph ↔ e.WellTyped graph := by
  cases e <;> rfl

end SqlExpr

/-! ## The compiler -/

/-- `SQLAlchemyQueryCompiler`, without the joins that it collects. -/
structure SQLAlchemyQueryCompiler (M : Type) where
  graph : M → Mapper M
  model : M
  allowedFields : Finset String := ∅
  maxTraversalDepth : ℕ := 3

/-- What a visit may change or raise: the state is `_pending_joins`. -/
abbrev Compile (M : Type) := StateT (List (Attribute M)) (Except PyException)

section

variable {M : Type} {s : List (Attribute M)}

theorem Compile.bind_ok {α β : Type} {x : Compile M α} {f : α → Compile M β}
    {r : β × List (Attribute M)} :
    (x >>= f) s = .ok r ↔ ∃ a s', x s = .ok (a, s') ∧ f a s' = .ok r := by
  change (x s >>= fun p => f p.1 p.2) = .ok r ↔ _
  constructor
  · intro h
    cases hx : x s with
    | error e =>
      rw [hx] at h
      cases h
    | ok p =>
      rw [hx] at h
      exact ⟨p.1, p.2, rfl, h⟩
  · rintro ⟨a, s', hx, hf⟩
    rw [hx]
    exact hf

theorem Compile.pure_ok {α : Type} {a b : α} {s' : List (Attribute M)} :
    (pure a : Compile M α) s = .ok (b, s') ↔ a = b ∧ s = s' := by
  change (Except.ok (a, s) : Except PyException _) = .ok (b, s') ↔ _
  simp

theorem Compile.lift_ok {α : Type} {x : Except PyException α} {b : α} {s' : List (Attribute M)} :
    (liftM x : Compile M α) s = .ok (b, s') ↔ x = .ok b ∧ s = s' := by
  cases x with
  | error e => exact ⟨nofun, fun h => nomatch h.1⟩
  | ok a =>
    change (Except.ok (a, s) : Except PyException _) = .ok (b, s') ↔ _
    simp

end

/-- What SQLAlchemy says to an operator other than `=` and `!=` next to `None` or a `bool`. -/
def constantError : PyException :=
  ⟨"ArgumentError", "Only '=', '!=', 'is_()', 'is_not()', 'is_distinct_from()', " ++
    "'is_not_distinct_from()' operators can be used with None/True/False"⟩

namespace SQLAlchemyQueryCompiler

variable {M : Type}

/-- `FieldNotFound(field, table)` -/
def fieldNotFound (field table : String) : PyException :=
  ⟨"FieldNotFound", s!"Field {pyRepr field} not found on model {pyRepr table}. " ++
    "Check spelling and that the field is mapped as a column."⟩

/-- `column <op> value`: SQLAlchemy writes `IS NULL` and `IS NOT NULL` for `None`. -/
def compareColumn (column : Attribute M) (op : Comparator) :
    Value → Except PyException (SqlExpr M)
  | .none =>
    match op with
    | .eq => .ok (.isNull column false)
    | .ne => .ok (.isNull column true)
    | _ => .error constantError
  | .scalar (.bool b) =>
    if op = .eq ∨ op = .ne then .ok (.compare column op (.scalar (.bool b)))
    else .error constantError
  | value => .ok (.compare column op value)

/-- `column.like(value)` -/
def likeColumn (column : Attribute M) : Value → Except PyException (SqlExpr M)
  | .none => .error constantError
  | .scalar (.bool _) => .error constantError
  | value => .ok (.like column value false)

/-- What `_visit_comparison` builds over the column of the field. -/
def compile (column : Attribute M) (node : ComparisonNode) : Except PyException (SqlExpr M) :=
  match node.op with
  | .equal => compareColumn column .eq node.value
  | .notEqual => compareColumn column .ne node.value
  | .greaterThan => compareColumn column .gt node.value
  | .lessThan => compareColumn column .lt node.value
  | .greaterEqual => compareColumn column .ge node.value
  | .lessEqual => compareColumn column .le node.value
  | .like => likeColumn column node.value
  | .in_ => .ok (.inList column node.value.elements false)
  | .isNull => .ok (.isNull column false)
  | .isNotNull => .ok (.isNull column true)

variable {column : Attribute M} {e : SqlExpr M}

theorem truth_of_compareColumn {op : Comparator} {value : Value}
    (h : compareColumn column op value = .ok e)
    (like : String → String → Bool) (row : Attribute M → Option Scalar) :
    e.truth like row = operandTruth op (row column) value := by
  unfold compareColumn at h
  split at h
  · split at h <;> cases h <;> rfl
  · split at h <;> cases h
    rfl
  · cases h
    cases value <;> simp_all [SqlExpr.truth, operandTruth]

theorem truth_of_likeColumn {value : Value}
    (h : likeColumn column value = .ok e) (like : String → String → Bool)
    (row : Attribute M → Option Scalar) :
    e.truth like row = likeTruth like (row column) value := by
  unfold likeColumn at h
  split at h <;> cases h
  rfl

/-- What is built over a column has the truth value of the comparison. -/
theorem truth_of_compile {node : ComparisonNode}
    (h : compile column node = .ok e) (like : String → String → Bool)
    (row : Attribute M → Option Scalar) : e.truth like row = node.truth like (row column) := by
  unfold compile at h
  unfold ComparisonNode.truth
  cases hop : node.op <;> simp only [hop] at h
  case like => exact truth_of_likeColumn h like row
  case in_ =>
    cases h
    rfl
  case isNull =>
    cases h
    rfl
  case isNotNull =>
    cases h
    rfl
  all_goals exact truth_of_compareColumn h like row

/-- `getattr(model, name)`, for a column; `field` is the name in the error. -/
def getColumn (compiler : SQLAlchemyQueryCompiler M) (model : M) (name : String) :
    Except PyException (Attribute M) :=
  let mapper := compiler.graph model
  match mapper.columns.lookup name with
  | some _ => .ok (model, name)
  | none => .error (fieldNotFound name mapper.tablename)

variable [DecidableEq M]

def noteJoin (join : Attribute M) (pending : List (Attribute M)) : List (Attribute M) :=
  if join ∈ pending then pending else pending ++ [join]

/-- The loop of `_resolve_column` over the relationships of a path, from `model` on. -/
def traverse (compiler : SQLAlchemyQueryCompiler M) (model : M) : List String → Compile M M
  | [] => return model
  | relName :: rest =>
    let mapper := compiler.graph model
    match mapper.relationships.lookup relName with
    | none =>
      throw (operationNotSupported
        (s!"Attribute {pyRepr relName} is not a declared SA relationship " ++
          s!"on {pyRepr mapper.name}. " ++
          s!"Available relationships: {pyReprList (mapper.relationships.map Prod.fst)}. " ++
          "Register relationships via Meta.customize() or sqlalchemy.orm.relationship()."))
    | some target => do
      modify (noteJoin (model, relName))
      compiler.traverse target rest

def resolveColumn (compiler : SQLAlchemyQueryCompiler M) (fieldPath : String) :
    Compile M (Attribute M) :=
  if !fieldPath.toList.contains '.' then
    compiler.getColumn compiler.model fieldPath
  else
    let parts := pySplit '.' fieldPath
    let hopCount := parts.length - 1
    if hopCount > compiler.maxTraversalDepth then
      throw (operationNotSupported
        (s!"Relationship traversal depth {hopCount} for {pyRepr fieldPath} " ++
          s!"exceeds max_traversal_depth={compiler.maxTraversalDepth}. " ++
          "Reduce nesting depth or raise max_traversal_depth explicitly."))
    else match parts.find? fun segment => !safeSegment segment with
    | some segment =>
      throw (.valueError
        (s!"Field path segment {pyRepr segment} in path {pyRepr fieldPath} contains " ++
          "unsafe characters. Only [a-zA-Z_][a-zA-Z0-9_]* identifiers are " ++
          "accepted to prevent attribute-injection attacks."))
    | none => do
      let leafModel ← compiler.traverse compiler.model parts.dropLast
      compiler.getColumn leafModel (parts.getLastD "")

def visitComparison (compiler : SQLAlchemyQueryCompiler M) (node : ComparisonNode) :
    Compile M (SqlExpr M) :=
  if compiler.allowedFields ≠ ∅ ∧ node.field ∉ compiler.allowedFields then
    throw (.valueError
      (s!"Field {pyRepr node.field} is not in the allowed fields whitelist. " ++
        s!"Allowed: {pyReprList (compiler.allowedFields.sort (· ≤ ·))}"))
  else do
    let column ← compiler.resolveColumn node.field
    compile column node

/-- `visit`, with `_combine_and`, `_combine_or` and `_combine_not`. -/
def visit (compiler : SQLAlchemyQueryCompiler M) : TransformerNode → Compile M (SqlExpr M) :=
  TransformerNode.walk compiler.visitComparison .and .or SqlExpr.negate

/-! ## What a visit builds -/

variable {compiler : SQLAlchemyQueryCompiler M}

theorem getColumn_ok {model : M} {name : String} (h : compiler.getColumn model name = .ok column) :
    column = (model, name) := by
  unfold getColumn at h
  dsimp only at h
  split at h <;> cases h
  rfl

/-- `fieldPath` leads to `column`. -/
def Resolves (compiler : SQLAlchemyQueryCompiler M) (fieldPath : String)
    (column : Attribute M) : Prop :=
  ∃ s s', compiler.resolveColumn fieldPath s = .ok (column, s')

/-- A path without a dot leads to a column of the compiler's own model. -/
theorem Resolves.eq_of_flat {fieldPath : String} (h : compiler.Resolves fieldPath column)
    (hflat : fieldPath.toList.contains '.' = false) : column = (compiler.model, fieldPath) := by
  obtain ⟨s, s', h⟩ := h
  simp only [resolveColumn, hflat, Bool.not_false, if_true] at h
  exact getColumn_ok (Compile.lift_ok.mp h).1

variable {s s' : List (Attribute M)}

theorem visitComparison_ok {node : ComparisonNode}
    (h : compiler.visitComparison node s = .ok (e, s')) :
    ∃ column, compiler.resolveColumn node.field s = .ok (column, s') ∧
      compile column node = .ok e := by
  unfold visitComparison at h
  split at h
  · cases h
  · obtain ⟨column, s₁, hc, h⟩ := Compile.bind_ok.mp h
    obtain ⟨he, rfl⟩ := Compile.lift_ok.mp h
    exact ⟨column, hc, he⟩

/-- **The expression means the tree.** On a row that has, in the column of each field, the value
of the field, the expression has the truth value of the tree in three-valued logic. -/
theorem truth_of_visit (like : String → String → Bool)
    {row : Attribute M → Option Scalar} {value : String → Option Scalar} {node : TransformerNode}
    (h : compiler.visit node s = .ok (e, s'))
    (hrow : ∀ leaf ∈ node.leaves, ∀ column, compiler.Resolves leaf.field column →
      row column = value leaf.field) :
    e.truth like row = node.reads fun leaf => leaf.truth like (value leaf.field) := by
  induction node generalizing s s' e with
  | comparison node =>
    obtain ⟨column, hc, he⟩ := visitComparison_ok h
    rw [truth_of_compile he, hrow node (List.mem_singleton_self node) column ⟨s, s', hc⟩]
    rfl
  | and left right ihl ihr | or left right ihl ihr =>
    obtain ⟨l, s₁, hl, h⟩ := Compile.bind_ok.mp h
    obtain ⟨r, s₂, hr, h⟩ := Compile.bind_ok.mp h
    obtain ⟨rfl, -⟩ := Compile.pure_ok.mp h
    have left := ihl hl fun leaf hleaf => hrow leaf (List.mem_append_left _ hleaf)
    have right := ihr hr fun leaf hleaf => hrow leaf (List.mem_append_right _ hleaf)
    simp only [SqlExpr.truth, left, right]
    rfl
  | not child ih =>
    obtain ⟨x, s₁, hx, h⟩ := Compile.bind_ok.mp h
    obtain ⟨rfl, -⟩ := Compile.pure_ok.mp h
    rw [SqlExpr.truth_negate, ih hx hrow]
    rfl

/-! ## Typed expressions -/

omit [DecidableEq M] in
/-- A typed comparison is decided on a value of the column's type. -/
theorem decided_of_compile {graph : M → Mapper M} {node : ComparisonNode}
    {value : Option Scalar} (h : compile column node = .ok e)
    (he : e.WellTyped graph) (hlike : node.op ≠ .like)
    (hvalue : ∀ x, value = some x → typeOf graph column = some x.columnType)
    (hpresent : value.isSome ∨ node.op = .isNull ∨ node.op = .isNotNull) : node.Decided value := by
  have comparable {x y : Scalar} (hx : value = some x)
      (hy : typeOf graph column = some y.columnType) : (x.compare? y).isSome :=
    Scalar.compare?_isSome.mpr (Option.some.inj ((hvalue x hx).symm.trans hy))
  have compared {c : Comparator} (hc : compareColumn column c node.value = .ok e) {x : Scalar}
      (hx : value = some x) :
      (∃ y, node.value = .scalar y ∧ (x.compare? y).isSome) ∨
        node.value = .none ∧ (c = .eq ∨ c = .ne) := by
    unfold compareColumn at hc
    split at hc
    · split at hc <;> cases hc <;> simp [*]
    · split at hc <;> cases hc
      obtain ⟨y, hv, hy⟩ := he
      exact .inl ⟨y, by simp_all, comparable hx hy⟩
    · cases hc
      obtain ⟨y, hv, hy⟩ := he
      exact .inl ⟨y, hv, comparable hx hy⟩
  unfold compile at h
  unfold ComparisonNode.Decided
  cases hop : node.op <;> simp only [hop] at h hpresent hlike ⊢
  case like => exact hlike rfl
  case in_ =>
    cases h
    obtain ⟨x, hx⟩ := Option.isSome_iff_exists.mp (by simpa using hpresent)
    exact ⟨x, hx, fun y hy => comparable hx (he y hy)⟩
  all_goals
    obtain ⟨x, hx⟩ := Option.isSome_iff_exists.mp (by simpa using hpresent)
    exact ⟨x, hx, by simpa using compared h hx⟩

/-- Every comparison of the tree is compiled over a column that its field leads to, and is typed if
the whole expression is. -/
theorem leaf_of_visit {graph : M → Mapper M}
    {node : TransformerNode}
    (h : compiler.visit node s = .ok (e, s')) (he : e.WellTyped graph) {leaf : ComparisonNode}
    (hleaf : leaf ∈ node.leaves) :
    ∃ column e', compiler.Resolves leaf.field column ∧ compile column leaf = .ok e' ∧
      e'.WellTyped graph := by
  induction node generalizing s s' e with
  | comparison node =>
    obtain rfl := List.mem_singleton.mp hleaf
    obtain ⟨column, hc, hcompile⟩ := visitComparison_ok h
    exact ⟨column, e, ⟨s, s', hc⟩, hcompile, he⟩
  | and left right ihl ihr | or left right ihl ihr =>
    obtain ⟨l, s₁, hl, h⟩ := Compile.bind_ok.mp h
    obtain ⟨r, s₂, hr, h⟩ := Compile.bind_ok.mp h
    obtain ⟨rfl, -⟩ := Compile.pure_ok.mp h
    rcases List.mem_append.mp hleaf with hleaf | hleaf
    · exact ihl hl he.1 hleaf
    · exact ihr hr he.2 hleaf
  | not child ih =>
    obtain ⟨x, s₁, hx, h⟩ := Compile.bind_ok.mp h
    obtain ⟨rfl, -⟩ := Compile.pure_ok.mp h
    exact ih hx (SqlExpr.wellTyped_negate.mp he) hleaf

end SQLAlchemyQueryCompiler

end Varco
