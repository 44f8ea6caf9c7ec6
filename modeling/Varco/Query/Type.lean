import Varco.Foundations.Python

/-!
# The query tree

The nodes of `varco_core.query.type`. A comparison is checked when it is built (`__post_init__`): a
comparison with `IN` has a list, and one with `IS NULL` or `IS NOT NULL` has no value. The nodes
carry these facts, so that a comparison that Python refuses cannot be written down here.
-/

namespace Varco

inductive Operation
  | equal
  | notEqual
  | greaterThan
  | lessThan
  | greaterEqual
  | lessEqual
  | like
  | in_
  | isNull
  | isNotNull
  deriving DecidableEq, Repr

inductive Scalar
  | int (n : ℤ)
  | float (x : PyFloat)
  | str (s : String)
  | bool (b : Bool)

inductive Value
  | scalar (x : Scalar)
  | list (xs : List Scalar)
  | none

/-- `isinstance(value, list)` -/
def Value.isList : Value → Bool
  | .list _ => true
  | _ => false

structure ComparisonNode where
  field : String
  op : Operation
  value : Value := .none
  isList_of_in : op = .in_ → value.isList = true := by simp
  none_of_null : op = .isNull ∨ op = .isNotNull → value = .none := by simp

/-- `TransformerNode`: a comparison, or a node over other nodes. -/
inductive TransformerNode
  | comparison (node : ComparisonNode)
  | and (left right : TransformerNode)
  | or (left right : TransformerNode)
  | not (child : TransformerNode)

namespace TransformerNode

def leaves : TransformerNode → List ComparisonNode
  | .comparison node => [node]
  | .and left right => left.leaves ++ right.leaves
  | .or left right => left.leaves ++ right.leaves
  | .not child => child.leaves

/-- The comparisons of a tree from left to right, each with its sign: whether it stands under an
even number of negations. -/
def signedLeaves : Bool → TransformerNode → List (Bool × ComparisonNode)
  | sign, .comparison node => [(sign, node)]
  | sign, .and left right => left.signedLeaves sign ++ right.signedLeaves sign
  | sign, .or left right => left.signedLeaves sign ++ right.signedLeaves sign
  | sign, .not child => child.signedLeaves (!sign)

end TransformerNode

end Varco
