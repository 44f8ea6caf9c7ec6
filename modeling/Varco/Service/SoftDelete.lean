import Varco.Foundations.Run
import Varco.Service.Effects
import Varco.Service.Table

/-!
# Soft deletion keeps the rows

A class with `SoftDeleteService` marks what it deletes. Only `delete_many`, which it does not
override, takes rows away (`no_row_lost`).
-/

namespace Varco

open List

namespace AsyncService

variable {PK V C R U : Type} [DecidableEq PK] {s : Service PK V C R U} {pk : PK}
  {rows rows' : Dict PK (Entity V)}

theorem get?_set_ne_none (h : rows.get? pk ≠ none) (pk' : PK) (e : Entity V) :
    (rows.set pk' e).get? pk ≠ none := by
  rw [Dict.get?_set]
  split_ifs
  · exact Option.some_ne_none _
  · exact h

/-- One call. -/
theorem Service.Effect.keeps {ctx : Auth.AuthContext} {call : Call PK C U} {reply : Reply R}
    (h : s.Effect ctx rows call reply rows') (hsoft : .softDelete ∈ s.cls.mro)
    (hcall : ∀ pks, call ≠ .deleteMany pks) (hrow : rows.get? pk ≠ none) :
    rows'.get? pk ≠ none := by
  cases h with
  | get | list | count | stream => exact hrow
  | create | update | patch | softDelete | restore => exact get?_set_ne_none hrow _ _
  | createMany =>
    exact foldlRecOn (motive := fun d => Dict.get? d pk ≠ none) _ _ hrow
      fun _ hrows row _ => get?_set_ne_none hrows _ _
  | delete hnot => exact absurd hsoft hnot
  | deleteMany => exact absurd rfl (hcall _)

/-- **A soft-deleting service loses no row**, in any run of calls of any callers without
`delete_many`. -/
theorem no_row_lost (hsoft : .softDelete ∈ s.cls.mro) {w w' : World PK V R}
    {l : List (Event PK C R U)} (h : Run s.Step w l w')
    (hl : ∀ a ∈ l, ∀ pks, a.call ≠ .deleteMany pks) (hrow : w.rows.get? pk ≠ none) :
    w'.rows.get? pk ≠ none := by
  refine h.invariant (I := fun w => w.rows.get? pk ≠ none) (fun t a t' ha hst ht => ?_) hrow
  cases hst with
  | returned _ hperform => exact (Service.perform_effect hperform).keeps hsoft (hl _ ha) ht
  | raised => exact ht

theorem no_row_lost_memo : ∃ w', Run (memos [.softDelete]).Step
      { rows := Dict.empty.set 1 { body := "memo" } } [⟨callerOf "A", .delete 1 5, .ok .none⟩] w' ∧
    w'.rows.get? 1 ≠ none := by
  obtain ⟨w', h⟩ : ∃ w', Run (memos [.softDelete]).Step
      { rows := Dict.empty.set 1 { body := "memo" } } [⟨callerOf "A", .delete 1 5, .ok .none⟩] w' :=
    ⟨_, .single (.returned (Service.fresh_of_inserted rfl) rfl)⟩
  exact ⟨w', h, no_row_lost (by decide) h (by simp) (by decide)⟩

end AsyncService

end Varco
