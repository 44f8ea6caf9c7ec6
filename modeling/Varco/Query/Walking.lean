import Mathlib.Algebra.Order.Ring.Rat
import Mathlib.Data.Finset.Sort
import Varco.Foundations.Text
import Varco.Query.Optimizer

/-!
# Walking a query tree

What the two query compilers share. `TransformerNode.walk` is the visitor of
`varco_core.query.visitor.walking`: it compiles the children of a node first, the left one before
the right one, and combines what they give. `safeSegment` is the check of one segment of a dotted
path, which each compiler keeps a copy of.

The second half says what a tree means without any compiler: `ComparisonNode.truth` reads a
comparison in three-valued logic, where a value may be missing, and `ComparisonNode.holds` in two.
Where a value is there and is of the type it is compared with, both give the same answer
(`eval_truth_eq`).
-/

namespace Varco

/-! ## The visitor -/

namespace TransformerNode

section

variable {m : Type → Type} [Monad m] {α : Type}

/-- `BinaryWalkingVisitor`: `_visit_and`, `_visit_or` and `_visit_not` walk the children and hand
what they give to `_combine_and`, `_combine_or` and `_combine_not`. -/
def walk (visitComparison : ComparisonNode → m α) (combineAnd combineOr : α → α → α)
    (combineNot : α → α) : TransformerNode → m α
  | .comparison node => visitComparison node
  | .and left right => do
    let l ← walk visitComparison combineAnd combineOr combineNot left
    let r ← walk visitComparison combineAnd combineOr combineNot right
    return combineAnd l r
  | .or left right => do
    let l ← walk visitComparison combineAnd combineOr combineNot left
    let r ← walk visitComparison combineAnd combineOr combineNot right
    return combineOr l r
  | .not child => do
    let x ← walk visitComparison combineAnd combineOr combineNot child
    return combineNot x

end

section

variable {τ : Type} [TruthAlgebra τ]

/-- The truth value of a tree, each leaf read by `v`. -/
def reads (v : ComparisonNode → τ) : TransformerNode → τ
  | .comparison node => v node
  | .and left right => TruthAlgebra.conj (left.reads v) (right.reads v)
  | .or left right => TruthAlgebra.disj (left.reads v) (right.reads v)
  | .not child => TruthAlgebra.neg (child.reads v)

theorem reads_congr {v v' : ComparisonNode → τ} (node : TransformerNode)
    (h : ∀ leaf ∈ node.leaves, v leaf = v' leaf) : node.reads v = node.reads v' := by
  induction node with
  | comparison node => exact h node (List.mem_singleton_self node)
  | and left right ihl ihr | or left right ihl ihr =>
    simp only [reads]
    rw [ihl fun leaf hl => h leaf (List.mem_append_left _ hl),
      ihr fun leaf hl => h leaf (List.mem_append_right _ hl)]
  | not child ih => simp only [reads, ih h]

end

end TransformerNode

/-! ## Field paths -/

/-- `OperationNotSupported(detail)` -/
def operationNotSupported (detail : String) : PyException := ⟨"OperationNotSupported", detail⟩

/-- `_SAFE_SEGMENT_RE.match(segment)`. Its `$` also matches before a newline at the end. -/
def safeSegment (segment : String) : Bool :=
  match segment.toList with
  | [] => false
  | c :: cs =>
    let rest := cs.dropWhile fun c => c.isAlphanum || c == '_'
    (c.isAlpha || c == '_') && (rest.isEmpty || rest == ['\n'])

/-! ## Comparing scalars -/

def Scalar.number? : Scalar → Option ℚ
  | .int n => some n
  | .float x => some x.val
  | _ => none

/-- How two scalars of one type compare: numbers by value, texts by code points. Scalars of
different types do not compare. -/
def Scalar.compare? : Scalar → Scalar → Option Ordering
  | .str x, .str y => some (compare x y)
  | .bool x, .bool y => some (compare x y)
  | x, y =>
    match x.number?, y.number? with
    | some m, some n => some (compare m n)
    | _, _ => none

/-- The operators on which two values of one type decide. -/
inductive Comparator
  | eq
  | ne
  | gt
  | lt
  | ge
  | le
  deriving DecidableEq, Repr

namespace Comparator

def holds : Comparator → Ordering → Bool
  | .eq, o => o == .eq
  | .ne, o => o != .eq
  | .gt, o => o == .gt
  | .lt, o => o == .lt
  | .ge, o => o != .lt
  | .le, o => o != .gt

def negate : Comparator → Comparator
  | .eq => .ne
  | .ne => .eq
  | .gt => .le
  | .lt => .ge
  | .ge => .lt
  | .le => .gt

theorem holds_negate (c : Comparator) (o : Ordering) : c.negate.holds o = !c.holds o := by
  cases c <;> cases o <;> rfl

end Comparator

/-! ## Three-valued reading -/

def Ternary.ofBool (b : Bool) : Ternary := if b then .true else .false

@[simp] theorem Ternary.ofBool_eq_true {b : Bool} :
    Ternary.ofBool b = Ternary.true ↔ b = Bool.true := by
  cases b <;> simp [Ternary.ofBool]

theorem Ternary.not_ofBool (b : Bool) : (Ternary.ofBool b).not = Ternary.ofBool (!b) := by
  cases b <;> rfl

/-- `value <c> operand`: unknown if the value is missing, or if the two do not compare. -/
def compareTruth (c : Comparator) (value : Option Scalar) : Value → Ternary
  | .scalar y =>
    match value.bind (·.compare? y) with
    | some o => .ofBool (c.holds o)
    | none => .unknown
  | _ => .unknown

/-- `value IS NULL` -/
def nullTruth (value : Option Scalar) : Ternary := .ofBool value.isNone

/-- `value IN (ys)`: equal to the first, or to the second, and so on. -/
def inTruth (value : Option Scalar) (ys : List Scalar) : Ternary :=
  ys.foldr (fun y t => (compareTruth .eq value (.scalar y)).or t) .false

/-- `value LIKE pattern`, as the server matches patterns. -/
def likeTruth (like : String → String → Bool) (value : Option Scalar) : Value → Ternary
  | .scalar (.str pattern) =>
    match value with
    | some (.str text) => .ofBool (like text pattern)
    | _ => .unknown
  | _ => .unknown

theorem compareTruth_negate (c : Comparator) (value : Option Scalar) (operand : Value) :
    compareTruth c.negate value operand = (compareTruth c value operand).not := by
  cases operand with
  | scalar y =>
    simp only [compareTruth]
    cases value.bind (·.compare? y) with
    | none => rfl
    | some o => simp only [Comparator.holds_negate, Ternary.not_ofBool]
  | list ys => rfl
  | none => rfl

/-- `value <c> operand` of a query, where equality with `None` asks whether the value is missing. -/
def operandTruth (c : Comparator) (value : Option Scalar) : Value → Ternary
  | .none =>
    match c with
    | .eq => nullTruth value
    | .ne => (nullTruth value).not
    | _ => .unknown
  | operand => compareTruth c value operand

def Value.elements : Value → List Scalar
  | .list xs => xs
  | _ => []

/-- A comparison in three-valued logic, for the value of its field; `none` is a missing value. -/
def ComparisonNode.truth (like : String → String → Bool) (value : Option Scalar)
    (node : ComparisonNode) : Ternary :=
  match node.op with
  | .equal => operandTruth .eq value node.value
  | .notEqual => operandTruth .ne value node.value
  | .greaterThan => operandTruth .gt value node.value
  | .lessThan => operandTruth .lt value node.value
  | .greaterEqual => operandTruth .ge value node.value
  | .lessEqual => operandTruth .le value node.value
  | .like => likeTruth like value node.value
  | .in_ => inTruth value node.value.elements
  | .isNull => nullTruth value
  | .isNotNull => (nullTruth value).not

/-! ## Two-valued reading -/

/-- `value <c> operand` in two-valued logic: values that do not compare are different, and neither
is above the other. Only a missing value equals `None`. -/
def operandHolds (c : Comparator) (value : Option Scalar) (operand : Value) : Bool :=
  let order : Option Ordering :=
    match value, operand with
    | some x, .scalar y => x.compare? y
    | none, .none => some .eq
    | _, _ => none
  match order with
  | some o => c.holds o
  | none => c == .ne

def ComparisonNode.holds (like : String → String → Bool) (value : Option Scalar)
    (node : ComparisonNode) : Bool :=
  match node.op with
  | .equal => operandHolds .eq value node.value
  | .notEqual => operandHolds .ne value node.value
  | .greaterThan => operandHolds .gt value node.value
  | .lessThan => operandHolds .lt value node.value
  | .greaterEqual => operandHolds .ge value node.value
  | .lessEqual => operandHolds .le value node.value
  | .like =>
    match value, node.value with
    | some (.str text), .scalar (.str pattern) => like text pattern
    | _, _ => false
  | .in_ => node.value.elements.any fun y => operandHolds .eq value (.scalar y)
  | .isNull => value.isNone
  | .isNotNull => value.isSome

/-! ## Where both readings agree -/

/-- The two readings of a comparison have the same answer: it asks only whether the value is
missing, or the value is there and compares with every operand. -/
def ComparisonNode.Decided (value : Option Scalar) (node : ComparisonNode) : Prop :=
  match node.op with
  | .isNull => True
  | .isNotNull => True
  | .like => False
  | .in_ => ∃ x, value = some x ∧ ∀ y ∈ node.value.elements, (x.compare? y).isSome
  | _ =>
    ∃ x, value = some x ∧
      ((∃ y, node.value = .scalar y ∧ (x.compare? y).isSome) ∨
        node.value = .none ∧ (node.op = .equal ∨ node.op = .notEqual))

theorem operandTruth_eq_of_isSome {c : Comparator} {x y : Scalar} (h : (x.compare? y).isSome) :
    operandTruth c (some x) (.scalar y) = .ofBool (operandHolds c (some x) (.scalar y)) := by
  obtain ⟨o, ho⟩ := Option.isSome_iff_exists.mp h
  simp only [operandTruth, compareTruth, operandHolds, Option.bind_some, ho]

theorem inTruth_eq_of_isSome {x : Scalar} {ys : List Scalar}
    (h : ∀ y ∈ ys, (x.compare? y).isSome) :
    inTruth (some x) ys = .ofBool (ys.any fun y => operandHolds .eq (some x) (.scalar y)) := by
  induction ys with
  | nil => rfl
  | cons y ys ih =>
    have first := operandTruth_eq_of_isSome (c := .eq) (h y List.mem_cons_self)
    have rest := ih fun z hz => h z (List.mem_cons_of_mem y hz)
    simp only [inTruth] at rest
    simp only [operandTruth] at first
    simp only [inTruth, List.foldr_cons, List.any_cons, rest, first]
    cases operandHolds .eq (some x) (.scalar y) <;>
      cases ys.any (fun y => operandHolds .eq (some x) (.scalar y)) <;> rfl

theorem ComparisonNode.truth_eq_of_decided {like : String → String → Bool} {value : Option Scalar}
    {node : ComparisonNode} (h : node.Decided value) :
    node.truth like value = .ofBool (node.holds like value) := by
  unfold ComparisonNode.Decided at h
  unfold ComparisonNode.truth ComparisonNode.holds
  split at h
  case h_1 hop => simp only [hop, nullTruth]
  case h_2 hop =>
    simp only [hop, nullTruth, Ternary.not_ofBool]
    cases value <;> rfl
  case h_3 => exact h.elim
  case h_4 hop =>
    obtain ⟨x, rfl, hx⟩ := h
    simp only [hop]
    exact inTruth_eq_of_isSome hx
  case h_5 =>
    obtain ⟨x, rfl, ⟨y, hy, hxy⟩ | ⟨hnone, hop⟩⟩ := h
    · cases hop : node.op <;> simp_all [operandTruth_eq_of_isSome hxy]
    · rcases hop with hop | hop <;> simp only [hop, hnone] <;> rfl

/-- The readings of a tree agree if those of its leaves do. -/
theorem TransformerNode.reads_truth_eq {v : ComparisonNode → Ternary} {w : ComparisonNode → Bool}
    (node : TransformerNode) (h : ∀ leaf ∈ node.leaves, v leaf = .ofBool (w leaf)) :
    node.reads v = .ofBool (node.reads w) := by
  rw [node.reads_congr h]
  clear h
  induction node with
  | comparison node => rfl
  | and left right ihl ihr | or left right ihl ihr =>
    simp only [TransformerNode.reads, ihl, ihr]
    cases left.reads w <;> cases right.reads w <;> rfl
  | not child ih =>
    simp only [TransformerNode.reads, ih]
    exact Ternary.not_ofBool _

end Varco
