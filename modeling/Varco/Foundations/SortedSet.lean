import Mathlib.Data.List.Sort
import Mathlib.Data.Prod.Lex
import Varco.Foundations.Expiring

/-!
# Sorted sets

A sorted set in the manner of Redis: distinct members, each with a score, in the order of the scores
and, for members of one score, of the members. What the operations do is said by the list of the
scores (`scores_add`, `scores_remRangeByScore`).

`SortedKeys` is a server whose keys hold sorted sets and expire. `scoresAt` are the scores that are
found under a key at a time, and `entriesAt` the members with their scores; each command is said by
what it does to those at all later times.
-/

namespace Varco

open List

variable {τ M : Type} [LinearOrder τ] [LinearOrder M]

/-- Members with scores, lowest first. -/
structure SortedSet (τ M : Type) [LinearOrder τ] [LinearOrder M] where
  entries : List (τ ×ₗ M)
  sorted : entries.Pairwise (· ≤ ·)
  nodup : (entries.map fun e => (ofLex e).2).Nodup

namespace SortedSet

def empty : SortedSet τ M := ⟨[], .nil, .nil⟩

def scores (z : SortedSet τ M) : List τ := z.entries.map fun e => (ofLex e).1

def members (z : SortedSet τ M) : List M := z.entries.map fun e => (ofLex e).2

/-- `ZCARD` -/
def card (z : SortedSet τ M) : ℕ := z.entries.length

/-- The members that satisfy `p`. -/
def filter (p : τ ×ₗ M → Bool) (z : SortedSet τ M) : SortedSet τ M where
  entries := z.entries.filter p
  sorted := z.sorted.filter p
  nodup := z.nodup.sublist ((filter_sublist).map _)

/-- `ZADD`: a member that is there gets the new score. -/
def add (z : SortedSet τ M) (score : τ) (member : M) : SortedSet τ M where
  entries := (z.filter fun e => (ofLex e).2 ≠ member).entries.orderedInsert (· ≤ ·)
    (toLex (score, member))
  sorted := (z.filter _).sorted.orderedInsert _ _
  nodup := by
    have hperm := (perm_orderedInsert (· ≤ ·) (toLex (score, member))
      (z.filter fun e => (ofLex e).2 ≠ member).entries).map fun e => (ofLex e).2
    rw [hperm.nodup_iff, map_cons, nodup_cons]
    refine ⟨?_, (z.filter _).nodup⟩
    intro hmem
    obtain ⟨e, he, heq⟩ := mem_map.mp hmem
    have hne := (mem_filter.mp he).2
    exact of_decide_eq_true hne heq

/-- `ZREMRANGEBYSCORE`, with both ends included. -/
def remRangeByScore (z : SortedSet τ M) (low high : τ) : SortedSet τ M :=
  z.filter fun e => ¬(low ≤ (ofLex e).1 ∧ (ofLex e).1 ≤ high)

/-- `ZREM` -/
def rem (z : SortedSet τ M) (member : M) : SortedSet τ M := z.filter fun e => (ofLex e).2 ≠ member

/-- `ZRANGE 0 0 WITHSCORES`: the score of the first member. -/
def oldest (z : SortedSet τ M) : Option τ := z.scores.head?

/-! ## Scores -/

variable {z : SortedSet τ M} {low high score : τ} {member : M}

theorem card_eq : z.card = z.scores.length := by
  simp [card, scores]

theorem sorted_scores (z : SortedSet τ M) : z.scores.Pairwise (· ≤ ·) := by
  refine pairwise_map.mpr (z.sorted.imp fun {a b} hab => ?_)
  rcases Prod.Lex.le_iff.mp hab with hlt | ⟨heq, -⟩
  · exact hlt.le
  · exact heq.le

theorem scores_remRangeByScore : (z.remRangeByScore low high).scores =
    z.scores.filter fun x => ¬(low ≤ x ∧ x ≤ high) := by
  unfold scores remRangeByScore filter
  rw [filter_map]
  rfl

theorem members_remRangeByScore_subset : (z.remRangeByScore low high).members ⊆ z.members :=
  map_subset _ (filter_subset_self _)

theorem scores_add (hnew : member ∉ z.members) (hlast : ∀ x ∈ z.scores, x ≤ score) :
    (z.add score member).scores = z.scores ++ [score] := by
  have hall : (z.filter fun e => (ofLex e).2 ≠ member).entries = z.entries := by
    refine filter_eq_self.mpr fun e he => decide_eq_true fun heq => hnew ?_
    exact mem_map.mpr ⟨e, he, heq⟩
  have hperm : (z.add score member).scores.Perm (z.scores ++ [score]) := by
    have hinsert := (perm_orderedInsert (· ≤ ·) (toLex (score, member))
      (z.filter fun e => (ofLex e).2 ≠ member).entries).map fun e => (ofLex e).1
    have hrest : (z.filter fun e => (ofLex e).2 ≠ member).scores = z.scores := by
      unfold scores
      rw [hall]
    rw [← hrest]
    exact hinsert.trans (perm_append_singleton _ _).symm
  refine hperm.eq_of_pairwise' (z.add score member).sorted_scores ?_
  refine pairwise_append.mpr ⟨z.sorted_scores, pairwise_singleton _ _, ?_⟩
  intro x hx y hy
  rw [mem_singleton.mp hy]
  exact hlast x hx

theorem members_add_subset : (z.add score member).members ⊆ member :: z.members := by
  intro m hm
  obtain ⟨e, he, rfl⟩ := mem_map.mp hm
  rcases (mem_orderedInsert _).mp he with rfl | he
  · exact mem_cons_self
  · exact mem_cons_of_mem _ (mem_map_of_mem (mem_filter.mp he).1)

theorem mem_add {e : τ ×ₗ M} : e ∈ (z.add score member).entries ↔
    e = toLex (score, member) ∨ e ∈ z.entries ∧ (ofLex e).2 ≠ member := by
  change e ∈ List.orderedInsert (· ≤ ·) _ (z.entries.filter _) ↔ _
  rw [mem_orderedInsert, mem_filter, decide_eq_true_eq]

theorem card_add_le : (z.add score member).card ≤ z.card + 1 := by
  change (List.orderedInsert (· ≤ ·) _ (z.entries.filter _)).length ≤ _
  rw [orderedInsert_length]
  exact Nat.succ_le_succ (length_filter_le ..)

end SortedSet

/-! ## Sorted sets under keys that expire -/

abbrev SortedKeys (κ τ M : Type) [LinearOrder τ] [LinearOrder M] := Expiring κ (SortedSet τ M) τ

namespace SortedKeys

variable {κ : Type} [DecidableEq κ]

/-- `ZREMRANGEBYSCORE`; a set that has lost its last member is deleted. -/
def zremrangebyscore (m : SortedKeys κ τ M) (now : τ) (k : κ) (low high : τ) : SortedKeys κ τ M :=
  match m.live now k with
  | none => m
  | some (z, expiry) =>
    if (z.remRangeByScore low high).card = 0 then m.del k
    else m.put k (z.remRangeByScore low high, expiry)

def zcard (m : SortedKeys κ τ M) (now : τ) (k : κ) : ℕ :=
  (m.get now k).elim 0 SortedSet.card

/-- `ZADD`; a new key does not expire. -/
def zadd (m : SortedKeys κ τ M) (now : τ) (k : κ) (score : τ) (member : M) : SortedKeys κ τ M :=
  match m.live now k with
  | none => m.put k (SortedSet.empty.add score member, none)
  | some (z, expiry) => m.put k (z.add score member, expiry)

/-- `EXPIRE`, given the time at which the key is to expire. -/
def expireat (m : SortedKeys κ τ M) (now : τ) (k : κ) (expiry : τ) : SortedKeys κ τ M :=
  match m.live now k with
  | none => m
  | some (z, _) => m.put k (z, some expiry)

/-- `ZRANGE 0 0 WITHSCORES`: the score of the first member. -/
def zrangeOldest (m : SortedKeys κ τ M) (now : τ) (k : κ) : Option τ :=
  (m.get now k).bind SortedSet.oldest

/-- The members that satisfy `p` stay; a set that has lost its last member is deleted. -/
def retain (m : SortedKeys κ τ M) (now : τ) (k : κ) (p : τ ×ₗ M → Bool) : SortedKeys κ τ M :=
  match m.live now k with
  | none => m
  | some (z, expiry) => if (z.filter p).card = 0 then m.del k else m.put k (z.filter p, expiry)

def zrem (m : SortedKeys κ τ M) (now : τ) (k : κ) (member : M) : SortedKeys κ τ M :=
  match m.live now k with
  | none => m
  | some (z, expiry) =>
    if (z.rem member).card = 0 then m.del k else m.put k (z.rem member, expiry)

def entriesAt (m : SortedKeys κ τ M) (now : τ) (k : κ) : List (τ ×ₗ M) :=
  (m.get now k).elim [] SortedSet.entries

def scoresAt (m : SortedKeys κ τ M) (now : τ) (k : κ) : List τ :=
  (m.get now k).elim [] SortedSet.scores

def membersOf (m : SortedKeys κ τ M) (k : κ) : List M :=
  (m.entries k).elim [] fun entry => entry.1.members

variable {m : SortedKeys κ τ M} {now t low high score expiry : τ} {k k' : κ} {member : M}
  {entry : SortedSet τ M × Option τ}

omit [DecidableEq κ] in
theorem scoresAt_of_live (h : m.live t k = some entry) : scoresAt m t k = entry.1.scores := by
  simp [scoresAt, Expiring.get, h]

omit [DecidableEq κ] in
theorem scoresAt_of_none (h : m.live t k = none) : scoresAt m t k = [] := by
  simp [scoresAt, Expiring.get, h]

omit [DecidableEq κ] in
theorem zcard_eq : zcard m now k = (scoresAt m now k).length := by
  unfold zcard scoresAt
  cases m.get now k with
  | none => rfl
  | some z => exact SortedSet.card_eq

omit [DecidableEq κ] in
theorem zrangeOldest_eq : zrangeOldest m now k = (scoresAt m now k).head? := by
  unfold zrangeOldest scoresAt
  cases m.get now k with
  | none => rfl
  | some z => rfl

omit [DecidableEq κ] in
/-- What is found at some time is found later, or has expired. -/
theorem scoresAt_of_le (h : now ≤ t) (hlive : m.live now k = some entry) :
    scoresAt m t k = if Expiring.isLive t entry then entry.1.scores else [] := by
  have hlater : m.live t k = (some entry).filter (Expiring.isLive t) := by
    rw [Expiring.live_of_le h, hlive]
  split
  case isTrue hl => exact scoresAt_of_live (by simp [hlater, Option.filter, hl])
  case isFalse hl => exact scoresAt_of_none (by simp [hlater, Option.filter, hl])

omit [DecidableEq κ] in
theorem scoresAt_expired (h : now ≤ t) (hlive : m.live now k = none) : scoresAt m t k = [] :=
  scoresAt_of_none (by rw [Expiring.live_of_le h, hlive]; rfl)

theorem scoresAt_put : scoresAt (m.put k entry) t k' =
    if k' = k then if Expiring.isLive t entry then entry.1.scores else []
    else scoresAt m t k' := by
  by_cases hk : k' = k
  · subst hk
    rw [if_pos rfl]
    split
    case isTrue hl => exact scoresAt_of_live (Expiring.live_put_self hl)
    case isFalse hl => exact scoresAt_of_none (by simp [Expiring.live, Expiring.put, hl])
  · rw [if_neg hk]
    unfold scoresAt Expiring.get
    rw [Expiring.live_put_ne hk]

theorem scoresAt_del : scoresAt (m.del k) t k' = if k' = k then [] else scoresAt m t k' := by
  by_cases hk : k' = k
  · subst hk
    rw [if_pos rfl]
    exact scoresAt_of_none Expiring.live_del_self
  · rw [if_neg hk]
    unfold scoresAt Expiring.get
    rw [Expiring.live_del_ne hk]

/-- **`ZREMRANGEBYSCORE`**, as it is seen later. -/
theorem scoresAt_zremrangebyscore (h : now ≤ t) :
    scoresAt (zremrangebyscore m now k low high) t k' =
      if k' = k then (scoresAt m t k').filter fun x => ¬(low ≤ x ∧ x ≤ high)
      else scoresAt m t k' := by
  unfold zremrangebyscore
  split
  case h_1 hlive =>
    by_cases hk : k' = k
    · subst hk
      rw [if_pos rfl, scoresAt_expired h hlive]
      rfl
    · rw [if_neg hk]
  case h_2 z expiry hlive =>
    have hscores := @SortedSet.scores_remRangeByScore τ M _ _ z low high
    by_cases hempty : (z.remRangeByScore low high).card = 0
    · rw [if_pos hempty, scoresAt_del]
      split
      case isFalse => rfl
      case isTrue hk =>
        subst hk
        rw [SortedSet.card_eq, length_eq_zero_iff, hscores] at hempty
        rw [scoresAt_of_le h hlive]
        split
        · exact hempty.symm
        · rfl
    · rw [if_neg hempty, scoresAt_put]
      split
      case isFalse => rfl
      case isTrue hk =>
        subst hk
        rw [scoresAt_of_le h hlive]
        change (if Expiring.isLive t (z, expiry) then _ else _) = _
        split
        · exact hscores
        · rfl

/-- **`ZADD` and `EXPIRE`** of a new member with a highest score, as they are seen later. -/
theorem scoresAt_zadd_expireat (hnew : member ∉ membersOf m k)
    (hlast : ∀ x ∈ scoresAt m now k, x ≤ score) :
    scoresAt (expireat (zadd m now k score member) now k expiry) t k' =
      if k' = k then if t ≤ expiry then scoresAt m now k ++ [score] else []
      else scoresAt m t k' := by
  -- the set that the member is added to, and its entry
  obtain ⟨z, kept, hput, hscores⟩ : ∃ z kept, zadd m now k score member =
      m.put k (z, kept) ∧ z.scores = scoresAt m now k ++ [score] ∧
        Expiring.isLive now (z, kept) = true := by
    unfold zadd
    split
    case h_1 hlive =>
      refine ⟨_, _, rfl, ?_, rfl⟩
      rw [scoresAt_of_none hlive]
      rfl
    case h_2 z kept hlive =>
      obtain ⟨hentry, hl⟩ := Option.filter_eq_some_iff.mp hlive
      rw [scoresAt_of_live hlive] at hlast ⊢
      have hnot : member ∉ z.members := by simpa [membersOf, hentry] using hnew
      exact ⟨_, _, rfl, SortedSet.scores_add hnot hlast, hl⟩
  have hexpire : expireat (m.put k (z, kept)) now k expiry =
      (m.put k (z, kept)).put k (z, some expiry) := by
    unfold expireat
    rw [Expiring.live_put_self hscores.2]
  rw [hput, hexpire, scoresAt_put, scoresAt_put]
  by_cases hk : k' = k
  · rw [if_pos hk, if_pos hk, hscores.1]
    simp [Expiring.isLive]
  · rw [if_neg hk, if_neg hk, if_neg hk]

theorem membersOf_put :
    membersOf (m.put k entry) k' = if k' = k then entry.1.members else membersOf m k' := by
  unfold membersOf Expiring.put
  by_cases hk : k' = k
  · subst hk
    simp
  · simp [hk]

theorem membersOf_del_subset : membersOf (m.del k) k' ⊆ membersOf m k' := by
  unfold membersOf Expiring.del
  by_cases hk : k' = k
  · subst hk
    simp
  · simp [hk]

omit [DecidableEq κ] in
theorem membersOf_of_live (h : m.live now k = some entry) : membersOf m k = entry.1.members := by
  simp [membersOf, (Option.filter_eq_some_iff.mp h).1]

theorem membersOf_zremrangebyscore_subset :
    membersOf (zremrangebyscore m now k low high) k' ⊆ membersOf m k' := by
  unfold zremrangebyscore
  split
  case h_1 => exact List.Subset.refl _
  case h_2 z expiry hlive =>
    split
    · exact membersOf_del_subset
    · rw [membersOf_put]
      split
      case isFalse => exact List.Subset.refl _
      case isTrue hk =>
        subst hk
        rw [membersOf_of_live hlive]
        exact SortedSet.members_remRangeByScore_subset

theorem membersOf_zadd_subset :
    membersOf (zadd m now k score member) k' ⊆ member :: membersOf m k' := by
  unfold zadd
  split
  case h_1 hlive =>
    rw [membersOf_put]
    split
    · refine List.Subset.trans SortedSet.members_add_subset (cons_subset_cons _ ?_)
      exact nil_subset _
    · exact subset_cons_self _ _
  case h_2 z expiry hlive =>
    rw [membersOf_put]
    split
    case isFalse => exact subset_cons_self _ _
    case isTrue hk =>
      subst hk
      rw [membersOf_of_live hlive]
      exact SortedSet.members_add_subset

theorem membersOf_expireat : membersOf (expireat m now k expiry) k' = membersOf m k' := by
  unfold expireat
  split
  case h_1 => rfl
  case h_2 z kept hlive =>
    rw [membersOf_put]
    split
    case isFalse => rfl
    case isTrue hk =>
      subst hk
      rw [membersOf_of_live hlive]

omit [DecidableEq κ] in
theorem entriesAt_of_live (h : m.live t k = some entry) : entriesAt m t k = entry.1.entries := by
  simp [entriesAt, Expiring.get, h]

omit [DecidableEq κ] in
theorem entriesAt_of_none (h : m.live t k = none) : entriesAt m t k = [] := by
  simp [entriesAt, Expiring.get, h]

omit [DecidableEq κ] in
theorem zcard_eq_entriesAt : zcard m now k = (entriesAt m now k).length := by
  unfold zcard entriesAt
  cases m.get now k with
  | none => rfl
  | some z => rfl

omit [DecidableEq κ] in
theorem nodup_entriesAt : ((entriesAt m t k).map fun e => (ofLex e).2).Nodup := by
  unfold entriesAt
  cases m.get t k with
  | none => exact .nil
  | some z => exact z.nodup

omit [DecidableEq κ] in
/-- What is found at some time is found later, or has expired. -/
theorem entriesAt_of_le (h : now ≤ t) :
    entriesAt m t k = entriesAt m now k ∨ entriesAt m t k = [] := by
  cases hlive : m.live t k with
  | none => exact Or.inr (entriesAt_of_none hlive)
  | some entry =>
    have hnow : m.live now k = some entry := by
      rw [Expiring.live_of_le h] at hlive
      exact (Option.filter_eq_some_iff.mp hlive).1
    exact Or.inl ((entriesAt_of_live hlive).trans (entriesAt_of_live hnow).symm)

/-- **The entries that stay**, as they are seen later. -/
theorem entriesAt_retain {p : τ ×ₗ M → Bool} (h : now ≤ t) :
    entriesAt (retain m now k p) t k = (entriesAt m t k).filter p := by
  unfold retain
  split
  case h_1 hlive =>
    have hlater : m.live t k = none := by rw [Expiring.live_of_le h, hlive]; rfl
    rw [entriesAt_of_none hlater]
    rfl
  case h_2 z expiry hlive =>
    have hlater : m.live t k = (some (z, expiry)).filter (Expiring.isLive t) := by
      rw [Expiring.live_of_le h, hlive]
    -- what is found at `t` before, and after the entry was replaced
    by_cases hl : Expiring.isLive t (z, expiry) = true
    · rw [entriesAt_of_live
        (show m.live t k = some (z, expiry) by simp [hlater, Option.filter, hl])]
      split
      case isTrue hempty =>
        rw [entriesAt_of_none Expiring.live_del_self]
        exact (length_eq_zero_iff.mp hempty).symm
      case isFalse =>
        have hfilter : Expiring.isLive t (z.filter p, expiry) = true := hl
        rw [entriesAt_of_live (Expiring.live_put_self hfilter)]
        rfl
    · rw [entriesAt_of_none (show m.live t k = none by simp [hlater, Option.filter, hl])]
      split
      case isTrue => rw [entriesAt_of_none Expiring.live_del_self]; rfl
      case isFalse =>
        have hput : (m.put k (z.filter p, expiry)).live t k = none := by
          simp only [Expiring.live, Expiring.put, Function.update_self, Option.filter]
          exact if_neg hl
        rw [entriesAt_of_none hput]
        rfl

theorem mem_entriesAt_zremrangebyscore {e : τ ×ₗ M} (h : now ≤ t) :
    e ∈ entriesAt (zremrangebyscore m now k low high) t k ↔
      e ∈ entriesAt m t k ∧ ¬(low ≤ (ofLex e).1 ∧ (ofLex e).1 ≤ high) := by
  change e ∈ entriesAt (retain m now k fun e => ¬(low ≤ (ofLex e).1 ∧ (ofLex e).1 ≤ high)) t k ↔ _
  rw [entriesAt_retain h, mem_filter, decide_eq_true_eq]

theorem mem_entriesAt_zrem {e : τ ×ₗ M} (h : now ≤ t) :
    e ∈ entriesAt (zrem m now k member) t k ↔
      e ∈ entriesAt m t k ∧ (ofLex e).2 ≠ member := by
  change e ∈ entriesAt (retain m now k fun e => (ofLex e).2 ≠ member) t k ↔ _
  rw [entriesAt_retain h, mem_filter, decide_eq_true_eq]

/-- **`ZADD` and `EXPIRE`**, as they are seen later. -/
theorem entriesAt_zadd_expireat :
    entriesAt (expireat (zadd m now k score member) now k expiry) t k =
      if t ≤ expiry then (((m.get now k).getD .empty).add score member).entries else [] := by
  obtain ⟨kept, hput, hl⟩ : ∃ kept, zadd m now k score member =
      m.put k (((m.get now k).getD .empty).add score member, kept) ∧
        Expiring.isLive now (((m.get now k).getD .empty).add score member, kept) = true := by
    unfold zadd
    split
    case h_1 hlive => exact ⟨none, by simp [Expiring.get, hlive], rfl⟩
    case h_2 z kept hlive =>
      exact ⟨kept, by simp [Expiring.get, hlive], (Option.filter_eq_some_iff.mp hlive).2⟩
  have hexpire : expireat (zadd m now k score member) now k expiry =
      (zadd m now k score member).put k
        (((m.get now k).getD .empty).add score member, some expiry) := by
    unfold expireat
    rw [hput, Expiring.live_put_self hl]
  rw [hexpire]
  split
  case isTrue ht =>
    rw [entriesAt_of_live (Expiring.live_put_self (by simp [Expiring.isLive, ht]))]
  case isFalse ht =>
    apply entriesAt_of_none
    simp [Expiring.live, Expiring.put, Expiring.isLive, ht]

omit [DecidableEq κ] in
theorem entries_getD : ((m.get now k).getD .empty).entries = entriesAt m now k := by
  unfold entriesAt
  cases m.get now k with
  | none => rfl
  | some z => rfl

end SortedKeys

end Varco
