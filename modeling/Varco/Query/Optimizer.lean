import Varco.Query.Type

/-!
# The query optimiser

`ASTQueryOptimizer` of `varco_core.query.visitor.query_optimizer`: it takes away double negations
and moves a conjunction on the left of a conjunction to its right. What a tree means is given over
any algebra of truth values in which conjunction is associative and negation undoes itself; the two
values of Boolean logic and the three of SQL are such algebras. The optimiser keeps the meaning of
every tree, and its comparisons in their order and with their signs.
-/

namespace Varco

/-! ## Truth values -/

/-- Truth values with connectives, through the laws that the optimiser uses. -/
class TruthAlgebra (τ : Type) where
  conj : τ → τ → τ
  disj : τ → τ → τ
  neg : τ → τ
  conj_assoc : ∀ a b c, conj (conj a b) c = conj a (conj b c)
  neg_neg : ∀ a, neg (neg a) = a

/-- Two-valued logic. -/
instance : TruthAlgebra Bool where
  conj := and
  disj := or
  neg := not
  conj_assoc := Bool.and_assoc
  neg_neg := Bool.not_not

/-- The truth values of SQL. -/
inductive Ternary
  | false
  | unknown
  | true
  deriving DecidableEq, Repr

namespace Ternary

/-- `AND`: false as soon as one operand is, true only if both are. -/
def and : Ternary → Ternary → Ternary
  | .false, _ => .false
  | _, .false => .false
  | .true, .true => .true
  | _, _ => .unknown

/-- `OR`: true as soon as one operand is, false only if both are. -/
def or : Ternary → Ternary → Ternary
  | .true, _ => .true
  | _, .true => .true
  | .false, .false => .false
  | _, _ => .unknown

/-- `NOT`: the unknown stays unknown. -/
def not : Ternary → Ternary
  | .false => .true
  | .unknown => .unknown
  | .true => .false

end Ternary

/-- Three-valued logic. -/
instance : TruthAlgebra Ternary where
  conj := Ternary.and
  disj := Ternary.or
  neg := Ternary.not
  conj_assoc a b c := by cases a <;> cases b <;> cases c <;> rfl
  neg_neg a := by cases a <;> rfl

namespace TransformerNode

variable {τ : Type} [TruthAlgebra τ]

/-- The truth value of a tree whose leaves are the leaves from place `i` on. The value of a leaf may
depend on its place: two comparisons that are written alike may have different values. -/
def eval (v : ℕ → ComparisonNode → τ) (i : ℕ) : TransformerNode → τ
  | .comparison node => v i node
  | .and left right => TruthAlgebra.conj (left.eval v i) (right.eval v (i + left.leaves.length))
  | .or left right => TruthAlgebra.disj (left.eval v i) (right.eval v (i + left.leaves.length))
  | .not child => TruthAlgebra.neg (child.eval v i)

end TransformerNode

/-! ## The visitor -/

namespace ASTQueryOptimizer

open TransformerNode

/-- What `_visit_and` builds of the children that it has visited. -/
def andNode (left right : TransformerNode) : TransformerNode :=
  match left with
  | .and a b => .and a (.and b right)
  | left => .and left right

/-- What `_visit_not` builds of the child that it has visited. -/
def notNode (child : TransformerNode) : TransformerNode :=
  match child with
  | .not x => x
  | child => .not child

/-- `visit`, with the handlers `_visit_comparison`, `_visit_and`, `_visit_or` and `_visit_not`. -/
def visit : TransformerNode → TransformerNode
  | .comparison node => .comparison node
  | .and left right => andNode (visit left) (visit right)
  | .or left right => .or (visit left) (visit right)
  | .not child => notNode (visit child)

/-! ## Leaves -/

@[simp] theorem signedLeaves_andNode (sign : Bool) (left right : TransformerNode) :
    (andNode left right).signedLeaves sign =
      left.signedLeaves sign ++ right.signedLeaves sign := by
  cases left <;> simp [andNode, signedLeaves]

@[simp] theorem signedLeaves_notNode (sign : Bool) (child : TransformerNode) :
    (notNode child).signedLeaves sign = child.signedLeaves (!sign) := by
  cases child <;> simp [notNode, signedLeaves]

theorem signedLeaves_visit (sign : Bool) (node : TransformerNode) :
    (visit node).signedLeaves sign = node.signedLeaves sign := by
  induction node generalizing sign with
  | comparison node => rfl
  | and left right ihl ihr | or left right ihl ihr => simp [visit, signedLeaves, ihl, ihr]
  | not child ih => simp [visit, signedLeaves, ih]

/-- The leaves are the signed leaves without their signs. -/
theorem leaves_eq_map (sign : Bool) (node : TransformerNode) :
    node.leaves = (node.signedLeaves sign).map Prod.snd := by
  induction node generalizing sign with
  | comparison node => rfl
  | and left right ihl ihr => simp [leaves, signedLeaves, ihl sign, ihr sign]
  | or left right ihl ihr => simp [leaves, signedLeaves, ihl sign, ihr sign]
  | not child ih => simpa [leaves, signedLeaves] using ih (!sign)

theorem leaves_visit (node : TransformerNode) : (visit node).leaves = node.leaves := by
  rw [leaves_eq_map true, leaves_eq_map true, signedLeaves_visit]

/-! ## Meaning -/

section

variable {τ : Type} [TruthAlgebra τ] (v : ℕ → ComparisonNode → τ) (i : ℕ)

theorem eval_andNode (left right : TransformerNode) :
    (andNode left right).eval v i = (TransformerNode.and left right).eval v i := by
  cases left with
  | and a b =>
    simp only [andNode, eval, leaves, List.length_append, ← Nat.add_assoc]
    exact (TruthAlgebra.conj_assoc _ _ _).symm
  | comparison node => rfl
  | or a b => rfl
  | not x => rfl

theorem eval_notNode (child : TransformerNode) :
    (notNode child).eval v i = (TransformerNode.not child).eval v i := by
  cases child with
  | not x => exact (TruthAlgebra.neg_neg _).symm
  | comparison node => rfl
  | and a b => rfl
  | or a b => rfl

/-- The optimised tree has the truth value of the tree, over any algebra of truth values. -/
theorem eval_visit (node : TransformerNode) : (visit node).eval v i = node.eval v i := by
  induction node generalizing i with
  | comparison node => rfl
  | and left right ihl ihr => simp only [visit, eval_andNode, eval, ihl, ihr, leaves_visit]
  | or left right ihl ihr => simp only [visit, eval, ihl, ihr, leaves_visit]
  | not child ih => simp only [visit, eval_notNode, eval, ih]

end

/-- **The optimiser preserves meaning.** For every tree and every truth value of each of its leaves,
in two-valued logic and in the three-valued logic of SQL, the optimised tree has the same truth
value; and its comparisons are the same from left to right, each under an even number of negations
if it was so before. -/
theorem optimizer_preserves_meaning (node : TransformerNode) :
    (∀ v : ℕ → ComparisonNode → Bool, (visit node).eval v 0 = node.eval v 0) ∧
      (∀ v : ℕ → ComparisonNode → Ternary, (visit node).eval v 0 = node.eval v 0) ∧
      (visit node).leaves = node.leaves ∧
      (visit node).signedLeaves true = node.signedLeaves true :=
  ⟨fun v => eval_visit v 0 node, fun v => eval_visit v 0 node, leaves_visit node,
    signedLeaves_visit true node⟩

end ASTQueryOptimizer

end Varco
