import Mathlib.Data.List.Perm.Basic
import Mathlib.Data.List.Nodup
import Mathlib.Order.Monotone.Basic

/-!
# Bounded sweeps

A store is swept by calls that each remove, or replace, some of the items that satisfy a predicate
`p`. `Swept p f before after gone` says that a call went over the items `gone`, all of which satisfy
`p`, put `f a` in the place of each of them, or nothing, and left the others alone; the lists stand
for what the store holds, in any order. `Drains call` is the loop that repeats a call until it
reports that it found nothing.

A call that looks at the first `F` items only, and finds its items among these, may miss others:
`Buried F p l a` are the items of `l` that no number of such calls comes to.
-/

namespace Varco

open List

variable {α σ : Type} {p : α → Bool} {f : α → Option α} {a b : α}
  {l before after later gone gone' : List α}

/-! ## What a call went over -/

/-- The items `gone` were taken out, and `f` of them put in their place. -/
structure Swept (p : α → Bool) (f : α → Option α) (before after gone : List α) : Prop where
  matched : ∀ a ∈ gone, p a = true
  split : ∃ rest, before.Perm (gone ++ rest) ∧ after.Perm (gone.filterMap f ++ rest)

/-- Nothing that is put in the place of an item satisfies the predicate. -/
def Settles (p : α → Bool) (f : α → Option α) : Prop := ∀ a, ∀ b ∈ f a, p b = false

theorem countP_filterMap (hf : Settles p f) : (l.filterMap f).countP p = 0 := by
  rw [countP_eq_zero]
  intro b hb hpb
  obtain ⟨a, -, ha⟩ := mem_filterMap.mp hb
  exact absurd hpb (by simp [hf a b ha])

/-- A call takes as many of the items away as it went over. -/
theorem Swept.countP (hf : Settles p f) (h : Swept p f before after gone) :
    before.countP p = gone.length + after.countP p := by
  obtain ⟨rest, hbefore, hafter⟩ := h.split
  have hgone : gone.countP p = gone.length := countP_eq_length.mpr h.matched
  rw [hbefore.countP_eq, hafter.countP_eq, countP_append, countP_append, hgone,
    countP_filterMap hf]
  omega

/-- A call that went over exactly as many of the items as the bound `n` allows. -/
structure SweptExactly (p : α → Bool) (f : α → Option α) (n : ℕ) (before after gone : List α) :
    Prop where
  swept : Swept p f before after gone
  length : gone.length = min n (before.countP p)

/-! ## Stores that find an item by its key -/

section

variable {κ : Type} {key : α → κ}

theorem nodup_of_keys (h : (l.map key).Nodup) : l.Nodup := List.Nodup.of_map key h

theorem eq_of_key (h : (l.map key).Nodup) (ha : a ∈ l) (hb : b ∈ l) (hkey : key a = key b) :
    a = b := inj_on_of_nodup_map h ha hb hkey

/-- Where items are found by keys, it is enough to say which items there are after the call. -/
theorem Swept.of_mem (hbefore : (before.map key).Nodup) (hafter : (after.map key).Nodup)
    (hfkey : ∀ a, ∀ b ∈ f a, key b = key a) (hgone : gone.Nodup) (hsub : gone ⊆ before)
    (hmatched : ∀ a ∈ gone, p a = true)
    (hmem : ∀ b, b ∈ after ↔ b ∈ before ∧ b ∉ gone ∨ ∃ a ∈ gone, f a = some b) :
    Swept p f before after gone := by
  classical
  refine ⟨hmatched, before.filter (· ∉ gone), ?_, ?_⟩
  · refine (perm_ext_iff_of_nodup (nodup_of_keys hbefore) ?_).mpr fun b => ?_
    · refine nodup_append'.mpr ⟨hgone, (nodup_of_keys hbefore).filter _, ?_⟩
      intro b hb hrest
      simp [hb] at hrest
    · by_cases hb : b ∈ gone
      · simp [hb, hsub hb]
      · simp [hb]
  · refine (perm_ext_iff_of_nodup (nodup_of_keys hafter) ?_).mpr fun b => ?_
    · -- what was put in the place of an item has its key
      have hkeys : ((gone.filterMap f).map key).Nodup := by
        have hgonekeys : (gone.map key).Nodup :=
          hgone.map_on fun a ha b hb hkey => eq_of_key hbefore (hsub ha) (hsub hb) hkey
        refine hgonekeys.sublist ?_
        clear hgone hsub hmatched hmem hgonekeys
        induction gone with
        | nil => exact List.Sublist.refl _
        | cons a gone ih =>
          cases hfa : f a with
          | none =>
            rw [filterMap_cons_none hfa]
            exact ih.cons _
          | some b =>
            rw [filterMap_cons_some hfa, map_cons, map_cons, hfkey a b hfa]
            exact ih.cons_cons _
      refine nodup_append'.mpr ⟨nodup_of_keys hkeys, (nodup_of_keys hbefore).filter _, ?_⟩
      intro b hb hrest
      obtain ⟨a, ha, hfa⟩ := mem_filterMap.mp hb
      have hnot : b ∈ before ∧ b ∉ gone := by simpa using hrest
      have hab : b = a := eq_of_key hbefore hnot.1 (hsub ha) (hfkey a b hfa)
      exact hnot.2 (hab ▸ ha)
    · rw [hmem b, mem_append, mem_filterMap, mem_filter]
      simp only [decide_eq_true_eq]
      exact or_comm

end

/-- Repeat a call until it reports that it found nothing. -/
inductive Drains (call : σ → ℕ → σ → Prop) : σ → σ → Prop
  | done {s s' : σ} : call s 0 s' → Drains call s s'
  | again {s s' s'' : σ} {k : ℕ} : call s (k + 1) s' → Drains call s' s'' → Drains call s s''

namespace Drains

variable {call : σ → ℕ → σ → Prop} {s s' s'' : σ} {P : σ → Prop} {m : σ → ℕ}

/-- A loop whose calls find fewer and fewer items ends. -/
theorem exists_of_measure (hcall : ∀ s, P s → ∃ k s', call s k s' ∧ P s' ∧ m s' + k ≤ m s)
    (hs : P s) : ∃ s', Drains call s s' := by
  induction hn : m s using Nat.strongRecOn generalizing s with
  | _ n ih =>
    obtain ⟨k, s', hk, hs', hm⟩ := hcall s hs
    cases k with
    | zero => exact ⟨s', .done hk⟩
    | succ k =>
      obtain ⟨s'', h⟩ := ih (m s') (by omega) hs' rfl
      exact ⟨s'', .again hk h⟩

/-- What every call keeps holds before the call that finds nothing. -/
theorem last (hP : ∀ {s k s'}, P s → call s k s' → P s') (h : Drains call s s') (hs : P s) :
    ∃ t, P t ∧ call t 0 s' := by
  induction h with
  | done hk => exact ⟨_, hs, hk⟩
  | again hk _ ih => exact ih (hP hs hk)

end Drains

/-! ## Calls that look at the first items only -/

section

variable [DecidableEq α] {F : ℕ}

/-- So many items that do not satisfy `p` come before `a` that it is never among the first `F`. -/
def Buried (F : ℕ) (p : α → Bool) (l : List α) (a : α) : Prop :=
  F ≤ (l.takeWhile (· ≠ a)).countP (! p ·)

theorem takeWhile_ne_filter {q : α → Bool} (ha : q a = true) :
    (l.filter q).takeWhile (· ≠ a) = (l.takeWhile (· ≠ a)).filter q := by
  induction l with
  | nil => rfl
  | cons b l ih =>
    by_cases hb : b = a
    · subst hb
      simp [ha]
    · cases hq : q b with
      | false => simpa [hq, hb] using ih
      | true => simpa [hq, hb] using ih

/-- A call that takes items that satisfy `p` buries no item and digs up none. -/
theorem buried_filter {q : α → Bool} (hq : ∀ b ∈ l, q b = false → p b = true) (ha : q a = true) :
    Buried F p (l.filter q) a ↔ Buried F p l a := by
  have hcount : ((l.takeWhile (· ≠ a)).filter q).countP (! p ·) =
      (l.takeWhile (· ≠ a)).countP (! p ·) := by
    rw [countP_filter]
    refine countP_congr fun b hb => ?_
    have hmem : b ∈ l := takeWhile_subset _ hb
    cases hqb : q b with
    | false => simp [hq b hmem hqb]
    | true => simp
  unfold Buried
  rw [takeWhile_ne_filter ha, hcount]

theorem length_takeWhile_lt (ha : a ∈ l.take F) : (l.takeWhile (· ≠ a)).length < F := by
  induction l generalizing F with
  | nil => simp at ha
  | cons b l ih =>
    cases F with
    | zero => simp at ha
    | succ F =>
      by_cases hb : b = a
      · simp [hb]
      · rw [take_succ_cons, mem_cons] at ha
        have hlt := ih (ha.resolve_left fun h => hb h.symm)
        simpa [hb] using hlt

theorem Buried.notMem (h : Buried F p l a) : a ∉ l.take F := fun ha =>
  absurd (Nat.le_trans h countP_le_length) (Nat.not_le.mpr (length_takeWhile_lt ha))

theorem take_sublist_takeWhile (ha : a ∉ l.take F) :
    (l.take F).Sublist (l.takeWhile (· ≠ a)) := by
  induction l generalizing F with
  | nil => simp
  | cons b l ih =>
    cases F with
    | zero => simp
    | succ F =>
      rw [take_succ_cons, mem_cons, not_or] at ha
      have hb : b ≠ a := fun h => ha.1 h.symm
      simpa [hb] using ih ha.2

/-- Where a call finds nothing, what is left is buried. -/
theorem buried_of_window (hwindow : ∀ b ∈ l.take F, p b = false) (ha : a ∈ l) (hp : p a = true) :
    Buried F p l a := by
  have hnot : a ∉ l.take F := fun hmem => by simp [hwindow a hmem] at hp
  have hlength : F ≤ l.length := by
    by_contra hlt
    exact hnot (by rwa [take_of_length_le (by omega)])
  calc F = (l.take F).length := (length_take_of_le hlength).symm
    _ = (l.take F).countP (! p ·) :=
      (countP_eq_length.mpr fun b hb => by simp [hwindow b hb]).symm
    _ ≤ _ := (take_sublist_takeWhile hnot).countP_le

end

/-! ## Several such calls in a row -/

/-- What a call that looks at the first `F` items leaves of the list. -/
def leftover (F : ℕ) (p : α → Bool) (l : List α) : List α := (l.take F).filter (! p ·) ++ l.drop F

/-- How far `k` calls come. -/
def reach (F : ℕ) (p : α → Bool) (l : List α) : ℕ → ℕ
  | 0 => 0
  | k + 1 => F + (l.take (reach F p l k)).countP p

/-- Taking what a call found leaves the rest of the list. -/
theorem filter_notMem_take [DecidableEq α] (F : ℕ) (p : α → Bool) (hl : l.Nodup) :
    l.filter (· ∉ (l.take F).filter p) = leftover F p l := by
  have hsplit : l.filter (· ∉ (l.take F).filter p) =
      (l.take F ++ l.drop F).filter (· ∉ (l.take F).filter p) := by rw [take_append_drop]
  have hdisjoint : ∀ a ∈ l.drop F, a ∉ l.take F := by
    rw [← take_append_drop F l] at hl
    exact fun a ha hmem => (nodup_append'.mp hl).2.2 hmem ha
  rw [hsplit, filter_append]
  unfold leftover
  congr 1
  · refine filter_congr fun a ha => ?_
    simp [ha]
  · refine filter_eq_self.mpr fun a ha => ?_
    simp [hdisjoint a ha]

section

variable (F : ℕ) (p : α → Bool) (l : List α) (k : ℕ)

theorem reach_le_succ : reach F p l k ≤ reach F p l (k + 1) := by
  induction k with
  | zero => exact Nat.zero_le _
  | succ k ih => exact Nat.add_le_add_left ((take_sublist_take_left ih).countP_le) F

theorem reach_mono : Monotone (reach F p l) := monotone_nat_of_le_succ (reach_le_succ F p l)

theorem length_filter_not : (l.filter (! p ·)).length = l.length - l.countP p := by
  have h := length_eq_countP_add_countP p (l := l)
  have hnot : l.countP (! p ·) = l.countP fun a => ¬p a :=
    countP_congr fun a _ => by simp
  rw [← countP_eq_length_filter, hnot]
  omega

/-- The next call looks at what the last ones left, and at so many items more. -/
theorem take_filter_append :
    ((l.take (reach F p l k)).filter (! p ·) ++ l.drop (reach F p l k)).take F =
      (l.take (reach F p l k)).filter (! p ·) ++
        (l.drop (reach F p l k)).take (reach F p l (k + 1) - reach F p l k) := by
  have hlength := length_filter_not p (l.take (reach F p l k))
  have hcount : (l.take (reach F p l k)).countP p ≤ _ := countP_le_length
  rw [length_take] at hlength hcount
  have hle := reach_le_succ F p l k
  have hsucc : reach F p l (k + 1) = F + (l.take (reach F p l k)).countP p := rfl
  -- what is left of the items looked at is no longer than `F`
  have hshort : ((l.take (reach F p l k)).filter (! p ·)).length ≤ F := by
    cases k with
    | zero => simp [reach]
    | succ k =>
      have hprev : (l.take (reach F p l k)).countP p ≤ (l.take (reach F p l (k + 1))).countP p :=
        (take_sublist_take_left (reach_le_succ F p l k)).countP_le
      have hreach : reach F p l (k + 1) = F + (l.take (reach F p l k)).countP p := rfl
      omega
  rw [take_append, take_of_length_le hshort]
  congr 1
  rcases Nat.le_total (reach F p l k) l.length with hk | hk
  · congr 1
    omega
  · rw [drop_eq_nil_of_le hk, take_nil, take_nil]

/-- **What `k` calls leave.** -/
theorem iterate_leftover : (leftover F p)^[k] l =
    (l.take (reach F p l k)).filter (! p ·) ++ l.drop (reach F p l k) := by
  induction k with
  | zero => simp [reach]
  | succ k ih =>
    have htake := take_filter_append F p l k
    obtain ⟨more, hmore⟩ := Nat.exists_eq_add_of_le (reach_le_succ F p l k)
    rw [hmore, Nat.add_sub_cancel_left] at htake
    have hdrop : ((l.take (reach F p l k)).filter (! p ·) ++ l.drop (reach F p l k)).drop F =
        l.drop (reach F p l k + more) := by
      have hsplit := take_append_drop F
        ((l.take (reach F p l k)).filter (! p ·) ++ l.drop (reach F p l k))
      rw [htake, append_assoc] at hsplit
      have hrest := append_cancel_left hsplit
      rw [← take_append_drop more (l.drop (reach F p l k)), take_append_drop] at hrest
      have hcancel := append_cancel_left
        (hrest.trans (take_append_drop more (l.drop (reach F p l k))).symm)
      rw [hcancel, drop_drop]
    rw [Function.iterate_succ_apply', ih]
    unfold leftover
    rw [htake, hdrop, hmore, take_add, filter_append, filter_append,
      filter_filter]
    simp

theorem mem_take_reach {a : α} (ha : a ∈ ((leftover F p)^[k] l).take F) :
    a ∈ l.take (reach F p l (k + 1)) := by
  rw [iterate_leftover, take_filter_append] at ha
  obtain ⟨more, hmore⟩ := Nat.exists_eq_add_of_le (reach_le_succ F p l k)
  rw [hmore, Nat.add_sub_cancel_left] at ha
  rw [hmore, take_add, mem_append]
  exact (mem_append.mp ha).imp_left mem_of_mem_filter

end

theorem Buried.notMem_reach [DecidableEq α] {F k : ℕ} (h : Buried F p l a) :
    a ∉ l.take (reach F p l k) := by
  induction k with
  | zero => simp [reach]
  | succ k ih =>
    intro ha
    have hlt := length_takeWhile_lt ha
    have hprev := (take_sublist_takeWhile ih).countP_le (p := p)
    have hsum := length_eq_countP_add_countP p (l := l.takeWhile (· ≠ a))
    have hnot : (l.takeWhile (· ≠ a)).countP (! p ·) = (l.takeWhile (· ≠ a)).countP fun a => ¬p a :=
      countP_congr fun a _ => by simp
    have hreach : reach F p l (k + 1) = F + (l.take (reach F p l k)).countP p := rfl
    unfold Buried at h
    omega

end Varco
