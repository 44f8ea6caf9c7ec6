import Varco.Foundations.Prog

/-!
# A program for each element of a list

`Prog.forEach f as` runs the program `f a` for each `a` of a list, in order, and collects what they
return; the first one that raises ends it. `Blocks Good as log bs` is that the log consists of one
block for each element, in order, and `Local.forEach` the rule: what is known of each `f a` on its
own is known of its block, and an exception comes from the element behind the blocks that are
complete.
-/

namespace Varco

namespace Prog

variable {Q C : Type} {R : C → Type} {α β ε : Type}

/-- Run `f` for each element, in order. -/
def forEach (f : α → ExceptT ε (Prog C R) β) : List α → ExceptT ε (Prog C R) (List β)
  | [] => pure []
  | a :: as => do
    let b ← f a
    let bs ← forEach f as
    pure (b :: bs)

/-- The log is made of one block for each element, with what was returned for it. -/
inductive Blocks (Good : α → List (Entry Q C R) → β → Prop) :
    List α → List (Entry Q C R) → List β → Prop
  | nil : Blocks Good [] [] []
  | cons {a : α} {as : List α} {block log : List (Entry Q C R)} {b : β} {bs : List β}
      (h : Good a block b) (hs : Blocks Good as log bs) :
      Blocks Good (a :: as) (block ++ log) (b :: bs)

variable {Good : α → List (Entry Q C R) → β → Prop} {Bad : α → List (Entry Q C R) → ε → Prop}
  {as : List α} {log : List (Entry Q C R)} {bs : List β}

theorem Blocks.mono {Good' : α → List (Entry Q C R) → β → Prop} (h : Blocks Good as log bs)
    (hgood : ∀ a block b, Good a block b → Good' a block b) : Blocks Good' as log bs := by
  induction h with
  | nil => exact .nil
  | cons h _ ih => exact .cons (hgood _ _ _ h) ih

theorem Blocks.exists_of_mem {a : α} (h : Blocks Good as log bs) (ha : a ∈ as) :
    ∃ block b, Good a block b := by
  induction h with
  | nil => cases ha
  | cons h _ ih =>
    rcases List.mem_cons.mp ha with rfl | ha
    · exact ⟨_, _, h⟩
    · exact ih ha

/-- Each entry of the log is in the block of an element. -/
theorem Blocks.block_of_mem {x : Entry Q C R} (h : Blocks Good as log bs) (hx : x ∈ log) :
    ∃ a ∈ as, ∃ block b, Good a block b ∧ x ∈ block := by
  induction h with
  | nil => cases hx
  | cons h _ ih =>
    rcases List.mem_append.mp hx with hx | hx
    · exact ⟨_, List.mem_cons_self, _, _, h, hx⟩
    · obtain ⟨a, ha, hrest⟩ := ih hx
      exact ⟨a, List.mem_cons_of_mem _ ha, hrest⟩

/-- What was done when a run of `f` ends: a block that is good for what it returned, or bad. -/
structure Block (Good : α → List (Entry Q C R) → β → Prop) (Bad : α → List (Entry Q C R) → ε → Prop)
    (a : α) (log l : List (Entry Q C R)) (r : Except ε β) : Prop where
  ok : ∀ b, r = .ok b → ∃ block, l = log ++ block ∧ Good a block b
  error : ∀ e, r = .error e → ∃ block, l = log ++ block ∧ Bad a block e

/-- **The rule for a loop**: good blocks up to the end, or up to an element whose block is bad. -/
theorem Local.forEach {A : Q → (c : C) → R c → Prop} {Φ : List (Entry Q C R) → C → Prop}
    {f : α → ExceptT ε (Prog C R) β}
    (h : ∀ a log, Local A Φ (fun l r => Block Good Bad a log l r) (f a).run log) (as : List α)
    (log : List (Entry Q C R)) :
    Local A Φ (fun l r => Block (Blocks Good) (fun as block e => ∃ as₁ a as₂ log₁ bs block₂,
      as = as₁ ++ a :: as₂ ∧ Blocks Good as₁ log₁ bs ∧ Bad a block₂ e ∧ block = log₁ ++ block₂)
      as log l r) (Prog.forEach f as).run log := by
  induction as generalizing log with
  | nil =>
    refine Local.pure_ok ⟨fun b hb => ?_, by rintro _ ⟨⟩⟩
    cases hb
    exact ⟨[], (List.append_nil log).symm, .nil⟩
  | cons a as ih =>
    refine Local.bindExcept (Local.mono (h a log) fun l r hr => ?_)
    cases r with
    | error e =>
      refine ⟨by rintro _ ⟨⟩, fun e' he => ?_⟩
      obtain ⟨block, hl, hbad⟩ := hr.error e rfl
      cases he
      exact ⟨block, hl, [], a, as, [], [], block, rfl, .nil, hbad, rfl⟩
    | ok b =>
      obtain ⟨block, rfl, hgood⟩ := hr.ok b rfl
      refine Local.bindExcept (Local.mono (ih (log ++ block)) fun l r hr => ?_)
      cases r with
      | error e =>
        refine ⟨by rintro _ ⟨⟩, fun e' he => ?_⟩
        obtain ⟨rest, rfl, as₁, a', as₂, log₁, bs, block₂, rfl, hblocks, hbad, rfl⟩ :=
          hr.error e rfl
        cases he
        exact ⟨block ++ (log₁ ++ block₂), by rw [List.append_assoc], a :: as₁, a', as₂,
          block ++ log₁, b :: bs, block₂, rfl, .cons hgood hblocks, hbad,
          by rw [List.append_assoc]⟩
      | ok bs =>
        obtain ⟨rest, rfl, hblocks⟩ := hr.ok bs rfl
        refine Local.pure_ok ⟨fun bs' hbs => ?_, by rintro _ ⟨⟩⟩
        cases hbs
        exact ⟨block ++ rest, by rw [List.append_assoc], .cons hgood hblocks⟩

end Prog

end Varco
