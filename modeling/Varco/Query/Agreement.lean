import Varco.Query.MongoCompiler
import Varco.Query.SqlCompiler

/-!
# The two compilers agree

A record is a value at each field path, or none. A row of the joined tables shows the record if each
column has the value at the path that leads to it, and a document shows it if each field has; in a
document a missing value is a missing field or `null`.
-/

namespace Varco

variable {M : Type} [DecidableEq M]

/-- A row shows a record to the fields of a tree, and its values are of the columns' types. -/
structure RowShows (compiler : SQLAlchemyQueryCompiler M) (record : String → Option Scalar)
    (node : TransformerNode) (row : Attribute M → Option Scalar) : Prop where
  value : ∀ leaf ∈ node.leaves, ∀ column, compiler.Resolves leaf.field column →
    row column = record leaf.field
  typed : ∀ column x, row column = some x → typeOf compiler.graph column = some x.columnType

/-- A document shows a record to the fields of a tree. -/
structure DocumentShows (record : String → Option Scalar) (node : TransformerNode)
    (document : Bson) : Prop where
  value : ∀ leaf ∈ node.leaves, scalarOf (document.field? leaf.field) = record leaf.field
  flat : ∀ leaf ∈ node.leaves, BeanieQueryCompiler.IsFlat (document.field? leaf.field)

def Present (record : String → Option Scalar) (node : TransformerNode) : Prop :=
  ∀ leaf ∈ node.leaves, (record leaf.field).isSome ∨ leaf.op = .isNull ∨ leaf.op = .isNotNull

/-- On a typed expression and a record with its fields, three-valued logic says what two-valued
logic says. -/
theorem truth_eq_holds {compiler : SQLAlchemyQueryCompiler M} {record : String → Option Scalar}
    {node : TransformerNode} {row : Attribute M → Option Scalar} {e : SqlExpr M}
    {joins : List (Attribute M)} (like : String → String → Bool)
    (h : compiler.visit node [] = .ok (e, joins)) (he : e.WellTyped compiler.graph)
    (hlike : ∀ leaf ∈ node.leaves, leaf.op ≠ .like) (hrow : RowShows compiler record node row)
    (hpresent : Present record node) :
    e.truth like row = .ofBool (node.reads fun leaf => leaf.holds like (record leaf.field)) := by
  rw [SQLAlchemyQueryCompiler.truth_of_visit like h hrow.value]
  refine node.reads_truth_eq fun leaf hleaf => ComparisonNode.truth_eq_of_decided ?_
  obtain ⟨column, e', hres, hcompile, htyped⟩ :=
    SQLAlchemyQueryCompiler.leaf_of_visit h he hleaf
  have hcolumn := hrow.value leaf hleaf column hres
  refine SQLAlchemyQueryCompiler.decided_of_compile hcompile htyped (hlike leaf hleaf)
    (fun x hx => ?_) (hpresent leaf hleaf)
  exact hrow.typed column x (hcolumn.trans hx)

def userGraph : Unit → Mapper Unit := fun _ =>
  { name := "User"
    tablename := "users"
    columns := [("name", .text), ("age", .number), ("banned_at", .text)]
    relationships := [] }

/-- `NOT (age > 30) AND (name IN ('ann', 'bob') OR banned_at IS NOT NULL)` -/
def userQuery : TransformerNode :=
  .and (.not (.comparison ⟨"age", .greaterThan, .scalar (.int 30), by simp, by simp⟩))
    (.or (.comparison ⟨"name", .in_, .list [.str "ann", .str "bob"],
      by simp [Value.isList], by simp⟩)
      (.comparison ⟨"banned_at", .isNotNull, .none, by simp, by simp⟩))

def userRecord (path : String) : Option Scalar :=
  if path = "name" then some (.str "bob") else if path = "age" then some (.int 30) else none

/-- The document leaves `banned_at` out. -/
def userDocument : Bson :=
  .document [("name", .scalar (.str "bob")), ("age", .scalar (.int 30))]

def userCompiler : SQLAlchemyQueryCompiler Unit := { graph := userGraph, model := () }

def userRow (column : Attribute Unit) : Option Scalar := userRecord column.2

theorem userRow_shows : RowShows userCompiler userRecord userQuery userRow where
  value leaf hleaf column h := by
    have hflat : leaf.field.toList.contains '.' = false := by
      revert hleaf
      simp only [userQuery, TransformerNode.leaves, List.singleton_append, List.mem_cons,
        List.not_mem_nil, or_false]
      rintro (rfl | rfl | rfl) <;> rfl
    rw [h.eq_of_flat hflat]
    rfl
  typed column x h := by
    unfold userRow userRecord at h
    unfold typeOf
    split at h
    · cases h
      simp only [*]
      rfl
    · split at h <;> cases h
      simp only [*]
      rfl

theorem userDocument_shows : DocumentShows userRecord userQuery userDocument where
  value leaf hleaf := by
    revert hleaf
    simp only [userQuery, TransformerNode.leaves, List.singleton_append, List.mem_cons,
      List.not_mem_nil, or_false]
    rintro (rfl | rfl | rfl) <;> rfl
  flat leaf hleaf := by
    revert hleaf
    simp only [userQuery, TransformerNode.leaves, List.singleton_append, List.mem_cons,
      List.not_mem_nil, or_false]
    rintro (rfl | rfl | rfl) fields <;> rintro ⟨⟩

end Varco
