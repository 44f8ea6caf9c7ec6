import Varco.Foundations.Text
import Varco.Query.Type

/-!
# Query parameters

`QueryParams`, and what the services use of `QueryBuilder`. The `repr()` of parameters names the
class of their node, and nothing else of it.
-/

namespace Varco

inductive SortOrder
  | asc
  | desc
  deriving DecidableEq

structure SortField where
  field : String
  order : SortOrder
  deriving DecidableEq

structure QueryParams where
  node : Option TransformerNode := none
  sort : List SortField := []
  limit : Option ℤ := none
  offset : Option ℤ := none

/-- `QueryBuilder`: the node so far. -/
structure QueryBuilder where
  node : Option TransformerNode := none

namespace QueryBuilder

/-- `eq`, on an empty builder. -/
def eq (field : String) (value : Scalar) : QueryBuilder :=
  ⟨some (.comparison { field, op := .equal, value := .scalar value })⟩

/-- `is_null`, on an empty builder. -/
def isNull (field : String) : QueryBuilder :=
  ⟨some (.comparison { field, op := .isNull })⟩

def and (self other : QueryBuilder) : QueryBuilder :=
  match self.node, other.node with
  | _, none => self
  | none, some right => ⟨some right⟩
  | some left, some right => ⟨some (.and left right)⟩

end QueryBuilder

end Varco
