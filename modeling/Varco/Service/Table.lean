import Varco.Query.Walking
import Varco.Service.Base

/-!
# A repository over a table

A query as a `WHERE` clause answers it: a row is in the result if the tree is true of it in
three-valued logic. The columns are the two fields that mixins know of; nothing is sorted, and
`like` matches equal texts only.
-/

namespace Varco

namespace AsyncService

variable {PK V : Type}

def ServiceClass.column (cls : ServiceClass) (e : Entity V) (field : String) : Option Scalar :=
  if field = cls.tenantField then e.tenantId.map .str
  else if field = cls.softDeleteField then e.deletedAt.map .int
  else none

/-- The `WHERE` clause is true of the row. -/
def ServiceClass.selects (cls : ServiceClass) (node : TransformerNode) (e : Entity V) : Bool :=
  node.reads (fun c => c.truth (fun text pattern => text = pattern) (cls.column e c.field)) ==
    Ternary.true

/-- `OFFSET` and `LIMIT` -/
def sqlPage (params : QueryParams) (l : List (PK × Entity V)) : List (PK × Entity V) :=
  let rest := l.drop (params.offset.getD 0).toNat
  match params.limit with
  | some n => rest.take n.toNat
  | none => rest

theorem and_beq_true (a b : Ternary) :
    (a.and b == Ternary.true) = ((a == Ternary.true) && (b == Ternary.true)) := by
  cases a <;> cases b <;> rfl

theorem ServiceClass.selects_and (cls : ServiceClass) (left right : TransformerNode) (_ : PK)
    (e : Entity V) :
    cls.selects (.and left right) e = (cls.selects left e && cls.selects right e) :=
  and_beq_true ..

theorem ServiceClass.selects_tenant (cls : ServiceClass) (tid : String) (_ : PK) (e : Entity V) :
    cls.selects (.comparison
      { field := cls.tenantField, op := .equal, value := .scalar (.str tid) }) e =
      decide (e.tenantId = some tid) := by
  unfold ServiceClass.selects ServiceClass.column
  simp only [TransformerNode.reads, ComparisonNode.truth, operandTruth, compareTruth, if_pos]
  cases e.tenantId with
  | none => rfl
  | some t =>
    change (Ternary.ofBool (compare t tid == Ordering.eq) == Ternary.true) = _
    rw [Bool.eq_iff_iff, beq_iff_eq, Ternary.ofBool_eq_true, beq_iff_eq, compare_eq_iff_eq,
      decide_eq_true_eq, Option.some_inj]

theorem ServiceClass.selects_deleted (cls : ServiceClass)
    (h : cls.tenantField ≠ cls.softDeleteField) (_ : PK) (e : Entity V) :
    cls.selects (.comparison { field := cls.softDeleteField, op := .isNull }) e =
      e.deletedAt.isNone := by
  unfold ServiceClass.selects ServiceClass.column
  simp only [TransformerNode.reads, ComparisonNode.truth, nullTruth, if_neg h.symm, if_pos]
  cases e.deletedAt <;> rfl

theorem sqlPage_subset (params : QueryParams) (l : List (PK × Entity V)) :
    sqlPage params l ⊆ l := by
  unfold sqlPage
  cases params.limit with
  | none => exact List.drop_subset _ _
  | some n => exact fun row hm => List.drop_subset _ _ (List.take_subset _ _ hm)

theorem sqlPage_all (params : QueryParams) (l : List (PK × Entity V)) (hlimit : params.limit = none)
    (hoffset : params.offset = none) : l ⊆ sqlPage params l := by
  unfold sqlPage
  rw [hlimit, hoffset]
  exact List.Subset.refl _

/-- The repository of a class whose two fields have different names. -/
def Repository.sql (cls : ServiceClass) (h : cls.tenantField ≠ cls.softDeleteField) :
    Repository PK V cls where
  holds node _ e := cls.selects node e
  page := sqlPage
  refuses _ := none
  holds_and := cls.selects_and
  holds_tenant := cls.selects_tenant
  holds_deleted := cls.selects_deleted h
  page_sub := sqlPage_subset
  page_all := sqlPage_all

/-! ## Memos -/

def callerOf (tid : String) : Auth.AuthContext :=
  { metadata := Dict.empty.set "tenant_id" (.str tid) }

def memos (mro : List Mixin) : Service ℕ String String (ℕ × String) String where
  cls := { mro }
  assembler :=
    { toDomain := fun text => { body := text }
      toReadDto := fun pk e => (pk, e.body)
      applyUpdate := fun _ e text => { e with body := text } }
  authorizer := permitAll
  repository := .sql _ (by decide : "tenant_id" ≠ "deleted_at")

end AsyncService

end Varco
