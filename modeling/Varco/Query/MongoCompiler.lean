import Varco.Query.Walking

/-!
# The MongoDB compiler

`BeanieQueryCompiler` of `varco_beanie.query.compiler`: a query tree becomes a filter document.
`MongoFilter.matches` is what MongoDB makes of such a document, on documents without arrays: a
missing field and a field that is `null` are told apart only by `$exists`, and values of different
types match no comparison. `matches_of_visit` says that the filter means what the tree means in
two-valued logic.
-/

namespace Varco

/-! ## Documents -/

/-- A value of a document. -/
inductive Bson
  | null
  | scalar (x : Scalar)
  | document (fields : List (String × Bson))

/-- The value at a path, through the embedded documents; `none` is a missing field. -/
def Bson.get? : Bson → List String → Option Bson
  | value, [] => some value
  | .document fields, name :: rest =>
    match fields.lookup name with
    | some value => value.get? rest
    | none => none
  | _, _ :: _ => none

def Bson.field? (document : Bson) (path : String) : Option Bson := document.get? (pySplit '.' path)

/-- The scalar that a field has, unless it is missing or `null`. -/
def scalarOf : Option Bson → Option Scalar
  | some (.scalar x) => some x
  | _ => none

/-- A field is missing or `null`. -/
def isNullish : Option Bson → Bool
  | none => true
  | some .null => true
  | _ => false

/-! ## Filters -/

/-- The conditions on one field. -/
inductive FieldOp
  | eq (value : Value)
  | ne (value : Value)
  | gt (value : Value)
  | lt (value : Value)
  | gte (value : Value)
  | lte (value : Value)
  | regex (pattern : String)
  | in_ (values : List Value)
  | exists_ (expected : Bool)

/-- The filter documents that the compiler builds: conditions on one field, `$and` and `$or` of two
filters, and `$nor` of one. -/
inductive MongoFilter
  | field (path : String) (ops : List FieldOp)
  | and (left right : MongoFilter)
  | or (left right : MongoFilter)
  | nor (inner : MongoFilter)

/-- Equality with an operand: `None` equals what is missing or `null`. -/
def matchesEq (field : Option Bson) : Value → Bool
  | .none => isNullish field
  | .scalar y => (scalarOf field).any fun x => x.compare? y == some .eq
  | .list _ => false

/-- `$gt`, `$lt`, `$gte` and `$lte`: the operand is of the type of the field. The last two take
`None` for equal to what is missing or `null`. -/
def matchesOrder (c : Comparator) (field : Option Bson) : Value → Bool
  | .none => c.holds .eq && isNullish field
  | .scalar y => (scalarOf field).any fun x => (x.compare? y).any c.holds
  | .list _ => false

/-- One condition on a field; `regex` is the matching of patterns. -/
def FieldOp.matches (regex : String → String → Bool) (field : Option Bson) : FieldOp → Bool
  | .eq value => matchesEq field value
  | .ne value => !matchesEq field value
  | .gt value => matchesOrder .gt field value
  | .lt value => matchesOrder .lt field value
  | .gte value => matchesOrder .ge field value
  | .lte value => matchesOrder .le field value
  | .regex pattern =>
    match scalarOf field with
    | some (.str text) => regex pattern text
    | _ => false
  | .in_ values => values.any (matchesEq field)
  | .exists_ expected => field.isSome == expected

def MongoFilter.matches (regex : String → String → Bool) (document : Bson) : MongoFilter → Bool
  | .field path ops => ops.all (·.matches regex (document.field? path))
  | .and left right => left.matches regex document && right.matches regex document
  | .or left right => left.matches regex document || right.matches regex document
  | .nor inner => !inner.matches regex document

/-! ## The compiler -/

/-- `re.escape` of one character. -/
def escapeRegex (c : Char) : String :=
  if "()[]\x7b\x7d?*+-|^$\\.&~# \t\n\r\x0b\x0c".toList.contains c then String.ofList ['\\', c]
  else String.singleton c

def sqlLikeToRegex (pattern : String) : String :=
  String.join (pattern.toList.map fun c =>
    if c = '%' then ".*" else if c = '_' then "." else escapeRegex c)

/-- `repr(scalar)` -/
def Scalar.repr : Scalar → String
  | .int n => toString n
  | .float x => x.repr
  | .str s => pyRepr s
  | .bool b => if b then "True" else "False"

/-- `str(value)` -/
def Value.str : Value → String
  | .scalar (.str s) => s
  | .scalar x => x.repr
  | .list xs => "[" ++ ", ".intercalate (xs.map Scalar.repr) ++ "]"
  | .none => "None"

structure BeanieQueryCompiler where
  allowedFields : Finset String := ∅
  maxTraversalDepth : ℕ := 10

namespace BeanieQueryCompiler

def checkField (compiler : BeanieQueryCompiler) (field : String) : Except PyException Unit :=
  if compiler.allowedFields ≠ ∅ ∧ field ∉ compiler.allowedFields then
    .error (.valueError
      (s!"Field {pyRepr field} is not in the allowed_fields whitelist. " ++
        s!"Allowed: {pyReprList (compiler.allowedFields.sort (· ≤ ·))}"))
  else if field.toList.contains '.' then
    let parts := pySplit '.' field
    let depth := parts.length - 1
    if depth > compiler.maxTraversalDepth then
      .error (operationNotSupported
        (s!"Dotted path depth {depth} for {pyRepr field} exceeds " ++
          s!"max_traversal_depth={compiler.maxTraversalDepth}. " ++
          "Reduce nesting depth or increase max_traversal_depth."))
    else match parts.find? fun segment => !safeSegment segment with
    | some segment =>
      .error (.valueError
        (s!"Field path segment {pyRepr segment} in {pyRepr field} contains " ++
          "unsafe characters. Only [a-zA-Z_][a-zA-Z0-9_]* identifiers are accepted."))
    | none => .ok ()
  else .ok ()

/-- The conditions that a comparison puts on its field. `IS_NULL` asks for `$in: [None]`, which a
missing field satisfies too. -/
def conditions (node : ComparisonNode) : List FieldOp :=
  match node.op with
  | .equal => [.eq node.value]
  | .notEqual => [.ne node.value]
  | .greaterThan => [.gt node.value]
  | .lessThan => [.lt node.value]
  | .greaterEqual => [.gte node.value]
  | .lessEqual => [.lte node.value]
  | .like => [.regex (sqlLikeToRegex node.value.str)]
  | .in_ => [.in_ (node.value.elements.map .scalar)]
  | .isNull => [.in_ [.none]]
  | .isNotNull => [.ne .none, .exists_ true]

def visitComparison (compiler : BeanieQueryCompiler) (node : ComparisonNode) :
    Except PyException MongoFilter := do
  compiler.checkField node.field
  return .field node.field (conditions node)

/-- `visit`, with `_combine_and`, `_combine_or` and `_combine_not`. -/
def visit (compiler : BeanieQueryCompiler) : TransformerNode → Except PyException MongoFilter :=
  TransformerNode.walk compiler.visitComparison .and .or .nor

/-! ## What a visit builds -/

/-- A field is missing, `null` or a scalar: it is not an embedded document. -/
def IsFlat (field : Option Bson) : Prop := ∀ fields, field ≠ some (.document fields)

variable {field : Option Bson}

theorem isNullish_eq (h : IsFlat field) :
    isNullish field = (scalarOf field).isNone := by
  cases field with
  | none => rfl
  | some value =>
    cases value with
    | null => rfl
    | scalar x => rfl
    | document fields => exact absurd rfl (h fields)

theorem exists_and_not_null (h : IsFlat field) :
    (!isNullish field && field.isSome) = (scalarOf field).isSome := by
  rw [isNullish_eq h]
  cases field with
  | none => rfl
  | some value => cases value <;> rfl

theorem matchesEq_eq (h : IsFlat field) (operand : Value) :
    matchesEq field operand = operandHolds .eq (scalarOf field) operand := by
  unfold operandHolds
  cases operand with
  | scalar y =>
    simp only [matchesEq]
    cases scalarOf field with
    | none => rfl
    | some x =>
      simp only [Option.any_some]
      cases x.compare? y with
      | none => rfl
      | some o => cases o <;> rfl
  | list ys => cases scalarOf field <;> rfl
  | none =>
    rw [matchesEq, isNullish_eq h]
    cases scalarOf field <;> rfl

theorem not_matchesEq_eq (h : IsFlat field) (operand : Value) :
    (!matchesEq field operand) = operandHolds .ne (scalarOf field) operand := by
  rw [matchesEq_eq h]
  unfold operandHolds
  split
  case h_1 x y _ => cases x.compare? y <;> rfl
  case h_2 => rfl
  case h_3 => rfl

theorem matchesOrder_eq {c : Comparator} (hc : c ≠ .ne) (h : IsFlat field)
    (operand : Value) : matchesOrder c field operand = operandHolds c (scalarOf field) operand := by
  have hne : (c == .ne) = false := by simpa using hc
  unfold operandHolds
  cases operand with
  | scalar y =>
    simp only [matchesOrder, hne]
    cases scalarOf field with
    | none => rfl
    | some x =>
      simp only [Option.any_some]
      cases x.compare? y <;> rfl
  | list ys => cases scalarOf field <;> simp [matchesOrder, hne]
  | none =>
    rw [matchesOrder, isNullish_eq h]
    cases scalarOf field <;> simp [hne]

/-- The conditions on a field hold as the comparison does in two-valued logic. -/
theorem conditions_matches {node : ComparisonNode} (hlike : node.op ≠ .like)
    (regex like : String → String → Bool) (h : IsFlat field) :
    (conditions node).all (·.matches regex field) = node.holds like (scalarOf field) := by
  unfold conditions ComparisonNode.holds
  cases hop : node.op <;>
    simp only [List.all_cons, List.all_nil, Bool.and_true, FieldOp.matches, beq_true]
  case equal => exact matchesEq_eq h _
  case notEqual => exact not_matchesEq_eq h _
  case like => exact absurd hop hlike
  case in_ =>
    rw [List.any_map]
    exact congrArg node.value.elements.any (funext fun y => matchesEq_eq h (.scalar y))
  case isNull =>
    simp only [List.any_cons, List.any_nil, Bool.or_false]
    exact isNullish_eq h
  case isNotNull => exact exists_and_not_null h
  all_goals exact matchesOrder_eq (by decide) h _

/-- **The filter means the tree.** On a document whose fields are scalars, `null` or missing, the
filter of a tree without `LIKE` matches if and only if the tree holds of the fields in two-valued
logic. -/
theorem matches_of_visit {compiler : BeanieQueryCompiler} (regex like : String → String → Bool)
    {document : Bson} {node : TransformerNode} {filter : MongoFilter}
    (h : compiler.visit node = .ok filter)
    (hlike : ∀ leaf ∈ node.leaves, leaf.op ≠ .like)
    (hflat : ∀ leaf ∈ node.leaves, IsFlat (document.field? leaf.field)) :
    filter.matches regex document =
      node.reads fun leaf => leaf.holds like (scalarOf (document.field? leaf.field)) := by
  induction node generalizing filter with
  | comparison node =>
    obtain ⟨-, -, h⟩ := exists_of_bind_ok h
    cases h
    have hmem := List.mem_singleton_self node
    exact conditions_matches (hlike node hmem) regex like (hflat node hmem)
  | and left right ihl ihr | or left right ihl ihr =>
    obtain ⟨l, hl, h⟩ := exists_of_bind_ok h
    obtain ⟨r, hr, h⟩ := exists_of_bind_ok h
    cases h
    have left := ihl hl (fun leaf hleaf => hlike leaf (List.mem_append_left _ hleaf))
      fun leaf hleaf => hflat leaf (List.mem_append_left _ hleaf)
    have right := ihr hr (fun leaf hleaf => hlike leaf (List.mem_append_right _ hleaf))
      fun leaf hleaf => hflat leaf (List.mem_append_right _ hleaf)
    simp only [MongoFilter.matches, left, right]
    rfl
  | not child ih =>
    obtain ⟨x, hx, h⟩ := exists_of_bind_ok h
    cases h
    simp only [MongoFilter.matches, ih hx hlike hflat]
    rfl

end BeanieQueryCompiler

end Varco
