import Mathlib.Data.List.Nodup
import Mathlib.Data.Nat.Basic
import Mathlib.Order.Basic

/-!
# Logs that a group of consumers reads

Two kinds of logs, with what their server keeps for one group of consumers.

* A `PartitionedLog`, in the manner of Kafka, keeps for each partition the offset that was committed
  last, and the position up to which the records were handed out. A commit says something about all
  records below it; a restart goes back to the committed offsets.
* A `StreamGroup`, in the manner of Redis, hands out each message once (`readNew`), and keeps those
  that were not acknowledged since. A restart changes nothing.
-/

namespace Varco

open Function List

/-! ## Partitions with offsets -/

/-- The records of each partition, the offset that is committed, and the offset that is read next.
-/
structure PartitionedLog (P α : Type) where
  log : P → List α := fun _ => []
  committed : P → ℕ := fun _ => 0
  position : P → ℕ := fun _ => 0

namespace PartitionedLog

variable {P α : Type}

def next (l : PartitionedLog P α) (p : P) : Option α := (l.log p)[l.position p]?

def Exhausted (l : PartitionedLog P α) : Prop := ∀ p, l.next p = none

def commitAll (l : PartitionedLog P α) : PartitionedLog P α := { l with committed := l.position }

def restart (l : PartitionedLog P α) : PartitionedLog P α := { l with position := l.committed }

variable [DecidableEq P]

def append (l : PartitionedLog P α) (p : P) (a : α) : PartitionedLog P α :=
  { l with log := update l.log p (l.log p ++ [a]) }

def handOut (l : PartitionedLog P α) (p : P) : PartitionedLog P α :=
  { l with position := update l.position p (l.position p + 1) }

def commit (l : PartitionedLog P α) (p : P) (offset : ℕ) : PartitionedLog P α :=
  { l with committed := update l.committed p offset }

/-- The next records of the partitions of a list are handed out, with their offsets. -/
def poll (l : PartitionedLog P α) : List P → Option (List (P × ℕ × α) × PartitionedLog P α)
  | [] => some ([], l)
  | p :: ps => do
    let a ← l.next p
    let (records, l') ← (l.handOut p).poll ps
    return ((p, l.position p, a) :: records, l')

variable {l l' : PartitionedLog P α} {p q : P} {a b : α} {i offset : ℕ} {ps : List P}
  {records : List (P × ℕ × α)}

theorem log_append_self : (l.append p a).log p = l.log p ++ [a] := update_self ..

theorem log_append_of_ne (h : q ≠ p) : (l.append p a).log q = l.log q := update_of_ne h ..

theorem position_handOut_self : (l.handOut p).position p = l.position p + 1 :=
  update_self ..

theorem position_handOut_of_ne (h : q ≠ p) : (l.handOut p).position q = l.position q :=
  update_of_ne h ..

theorem committed_commit_self : (l.commit p offset).committed p = offset := update_self ..

theorem committed_commit_of_ne (h : q ≠ p) : (l.commit p offset).committed q = l.committed q :=
  update_of_ne h ..

theorem length_le_append : (l.log q).length ≤ ((l.append p a).log q).length := by
  by_cases hq : q = p
  · rw [hq, log_append_self, length_append]
    exact Nat.le_add_right ..
  · rw [log_append_of_ne hq]

theorem getElem?_append (h : (l.log q)[i]? = some b) : ((l.append p a).log q)[i]? = some b := by
  by_cases hq : q = p
  · subst hq
    rw [log_append_self, List.getElem?_append_left (List.getElem?_eq_some_iff.mp h).1, h]
  · rwa [log_append_of_ne hq]

theorem getElem?_of_append (h : ((l.append p a).log q)[i]? = some b) :
    (l.log q)[i]? = some b ∨ q = p ∧ i = (l.log p).length ∧ b = a := by
  by_cases hq : q = p
  · subst hq
    rw [log_append_self, List.getElem?_append] at h
    split_ifs at h with hi
    · exact Or.inl h
    · obtain ⟨hlt, heq⟩ := List.getElem?_eq_some_iff.mp h
      have hzero : i - (l.log q).length = 0 := by simpa using hlt
      exact Or.inr ⟨rfl, le_antisymm (Nat.sub_eq_zero_iff_le.mp hzero) (not_lt.mp hi),
        by simpa [hzero] using heq.symm⟩
  · rw [log_append_of_ne hq] at h
    exact Or.inl h

theorem poll_cons (h : l.poll (p :: ps) = some (records, l')) : ∃ a rest, l.next p = some a ∧
    (l.handOut p).poll ps = some (rest, l') ∧ records = (p, l.position p, a) :: rest := by
  simp only [poll, Option.bind_eq_bind, Option.pure_def, Option.bind_eq_some_iff,
    Option.some.injEq, Prod.exists, Prod.mk.injEq] at h
  obtain ⟨a, ha, rest, l'', hrest, hrecords, rfl⟩ := h
  exact ⟨a, rest, ha, hrest, hrecords.symm⟩

theorem poll_same (h : l.poll ps = some (records, l')) :
    l'.log = l.log ∧ l'.committed = l.committed := by
  induction ps generalizing l records with
  | nil =>
    cases h
    exact ⟨rfl, rfl⟩
  | cons p ps ih =>
    obtain ⟨a, rest, -, hrest, -⟩ := poll_cons h
    have hsame := ih hrest
    exact hsame

theorem position_le_handOut : l.position q ≤ (l.handOut p).position q := by
  by_cases hq : q = p
  · subst hq
    rw [position_handOut_self]
    exact Nat.le_succ _
  · rw [position_handOut_of_ne hq]

theorem poll_position_le (h : l.poll ps = some (records, l')) : l.position q ≤ l'.position q := by
  induction ps generalizing l records with
  | nil =>
    cases h
    exact le_rfl
  | cons p ps ih =>
    obtain ⟨a, rest, -, hrest, -⟩ := poll_cons h
    exact position_le_handOut.trans (ih hrest)

theorem poll_position_le_length (hle : ∀ q, l.position q ≤ (l.log q).length)
    (h : l.poll ps = some (records, l')) (q : P) : l'.position q ≤ (l.log q).length := by
  induction ps generalizing l records with
  | nil =>
    cases h
    exact hle q
  | cons p ps ih =>
    obtain ⟨a, rest, ha, hrest, -⟩ := poll_cons h
    have hlt : l.position p < (l.log p).length := (List.getElem?_eq_some_iff.mp ha).1
    have hbelow : ∀ q', (l.handOut p).position q' ≤ ((l.handOut p).log q').length := by
      intro q'
      by_cases hq : q' = p
      · rw [hq, position_handOut_self]
        exact hlt
      · rw [position_handOut_of_ne hq]
        exact hle q'
    have hend := ih hbelow hrest
    exact hend

/-- **What a poll hands out**: the records from the old position up to the new one. -/
theorem mem_poll (h : l.poll ps = some (records, l')) : (q, i, b) ∈ records ↔
    (l.log q)[i]? = some b ∧ l.position q ≤ i ∧ i < l'.position q := by
  induction ps generalizing l records with
  | nil =>
    cases h
    refine iff_of_false not_mem_nil fun hmem => ?_
    exact absurd hmem.2.1 (not_le.mpr hmem.2.2)
  | cons p ps ih =>
    obtain ⟨a, rest, ha, hrest, rfl⟩ := poll_cons h
    have hle : (l.handOut p).position p ≤ l'.position p := poll_position_le hrest
    rw [position_handOut_self] at hle
    have hlog : (l.handOut p).log q = l.log q := rfl
    rw [mem_cons, ih hrest, hlog]
    by_cases hq : q = p
    · subst hq
      rw [position_handOut_self]
      constructor
      · rintro (heq | ⟨hb, hlow, hhigh⟩)
        · cases heq
          exact ⟨ha, le_rfl, hle⟩
        · exact ⟨hb, (Nat.le_succ _).trans hlow, hhigh⟩
      · rintro ⟨hb, hlow, hhigh⟩
        rcases hlow.eq_or_lt with heq | hlt
        · left
          rw [← heq] at hb ⊢
          cases ha.symm.trans hb
          rfl
        · exact Or.inr ⟨hb, hlt, hhigh⟩
    · rw [position_handOut_of_ne hq]
      exact or_iff_right fun heq => hq (congrArg Prod.fst heq)

omit [DecidableEq P] in
theorem lt_position_of_exhausted (h : l.Exhausted) (hb : (l.log q)[i]? = some b) :
    i < l.position q := by
  have hlength := List.getElem?_eq_none_iff.mp (h q)
  exact (List.getElem?_eq_some_iff.mp hb).1.trans_le hlength

end PartitionedLog

/-! ## Streams with pending messages -/

/-- The stored messages by their ids, which increase; the id from which on messages are new to the
group; and the pending messages. -/
structure StreamGroup (α : Type) where
  messages : List (ℕ × α) := []
  nextId : ℕ := 0
  delivered : ℕ := 0
  pending : List ℕ := []

namespace StreamGroup

variable {α : Type}

/-- `XADD` -/
def add (g : StreamGroup α) (a : α) : StreamGroup α :=
  { g with messages := g.messages ++ [(g.nextId, a)], nextId := g.nextId + 1 }

def unread (g : StreamGroup α) : List (ℕ × α) := g.messages.filter fun m => g.delivered ≤ m.1

/-- The messages that `XREADGROUP` with `>` returns. -/
def toRead (g : StreamGroup α) (count : ℕ) : List (ℕ × α) := g.unread.take count

/-- The group after `XREADGROUP` with `>`. -/
def readNew (g : StreamGroup α) (count : ℕ) : StreamGroup α :=
  { g with
    delivered := ((g.toRead count).getLast?.map (·.1 + 1)).getD g.delivered
    pending := g.pending ++ (g.toRead count).map (·.1) }

/-- `XACK` -/
def ack (g : StreamGroup α) (i : ℕ) : StreamGroup α :=
  { g with pending := g.pending.filter (· ≠ i) }

/-- `XDEL` -/
def del (g : StreamGroup α) (i : ℕ) : StreamGroup α :=
  { g with messages := g.messages.filter (·.1 ≠ i) }

/-- The ids increase. -/
structure Ordered (g : StreamGroup α) : Prop where
  sorted : (g.messages.map (·.1)).Pairwise (· < ·)
  below : ∀ m ∈ g.messages, m.1 < g.nextId

variable {g : StreamGroup α} {a : α} {i count : ℕ} {m : ℕ × α}

theorem Ordered.add (h : g.Ordered) : (g.add a).Ordered where
  sorted := by
    change ((g.messages ++ [(g.nextId, a)]).map (·.1)).Pairwise (· < ·)
    rw [map_append]
    refine pairwise_append.mpr ⟨h.sorted, pairwise_singleton .., ?_⟩
    intro i hi j hj
    obtain ⟨m, hm, rfl⟩ := mem_map.mp hi
    rw [mem_singleton.mp hj]
    exact h.below m hm
  below m hm := by
    rcases mem_append.mp hm with hm | hm
    · exact (h.below m hm).trans (Nat.lt_succ_self _)
    · rw [mem_singleton.mp hm]
      exact Nat.lt_succ_self _

theorem Ordered.del (h : g.Ordered) : (g.del i).Ordered where
  sorted := h.sorted.sublist (filter_sublist.map _)
  below m hm := h.below m (mem_filter.mp hm).1

theorem Ordered.readNew (h : g.Ordered) : (g.readNew count).Ordered := ⟨h.sorted, h.below⟩

theorem Ordered.ack (h : g.Ordered) : (g.ack i).Ordered := ⟨h.sorted, h.below⟩

theorem Ordered.eq_of_id (h : g.Ordered) {m' : ℕ × α} (hm : m ∈ g.messages) (hm' : m' ∈ g.messages)
    (heq : m.1 = m'.1) : m = m' :=
  inj_on_of_nodup_map (h.sorted.imp ne_of_lt) hm hm' heq

theorem mem_add : m ∈ (g.add a).messages ↔ m ∈ g.messages ∨ m = (g.nextId, a) := by
  simp [add]

theorem mem_del : m ∈ (g.del i).messages ↔ m ∈ g.messages ∧ m.1 ≠ i := by
  simp [del]

theorem mem_unread : m ∈ g.unread ↔ m ∈ g.messages ∧ g.delivered ≤ m.1 := by
  simp [unread]

/-- **What is handed out**: the messages from the old mark up to the new one. -/
theorem Ordered.mem_toRead (h : g.Ordered) : m ∈ g.toRead count ↔
    m ∈ g.messages ∧ g.delivered ≤ m.1 ∧ m.1 < (g.readNew count).delivered := by
  have hsorted : (g.unread.map (·.1)).Pairwise (· < ·) :=
    h.sorted.sublist (filter_sublist.map _)
  change m ∈ g.toRead count ↔ m ∈ g.messages ∧ g.delivered ≤ m.1 ∧
    m.1 < ((g.toRead count).getLast?.map (·.1 + 1)).getD g.delivered
  rcases eq_nil_or_concat (g.toRead count) with hnil | ⟨init, last, hconcat⟩
  · rw [hnil]
    refine iff_of_false not_mem_nil fun hmem => ?_
    exact absurd hmem.2.1 (not_le.mpr hmem.2.2)
  · obtain ⟨rest, hsplit⟩ : ∃ rest, g.unread = init ++ last :: rest := by
      have hunread : g.toRead count ++ g.unread.drop count = g.unread :=
        take_append_drop count g.unread
      exact ⟨g.unread.drop count, hunread.symm.trans (by rw [hconcat]; simp)⟩
    rw [hconcat, concat_eq_append, List.getLast?_concat]
    change m ∈ init ++ [last] ↔ m ∈ g.messages ∧ g.delivered ≤ m.1 ∧ m.1 < last.1 + 1
    rw [hsplit, map_append, map_cons] at hsorted
    obtain ⟨-, hright, hcross⟩ := pairwise_append.mp hsorted
    have hunread : m ∈ init ++ [last] ∨ m ∈ rest ↔
        m ∈ g.messages ∧ g.delivered ≤ m.1 := by
      rw [← mem_unread, hsplit]
      simp [or_assoc]
    constructor
    · intro hm
      obtain ⟨hmessage, hlow⟩ := hunread.mp (Or.inl hm)
      refine ⟨hmessage, hlow, Nat.lt_succ_of_le ?_⟩
      rcases mem_append.mp hm with hm | hm
      · exact (hcross _ (mem_map_of_mem hm) _ mem_cons_self).le
      · rw [mem_singleton.mp hm]
    · rintro ⟨hmessage, hlow, hhigh⟩
      rcases hunread.mpr ⟨hmessage, hlow⟩ with hm | hm
      · exact hm
      · have hlt := (pairwise_cons.mp hright).1 _ (mem_map_of_mem hm)
        exact absurd hlt (not_lt.mpr (Nat.lt_succ_iff.mp hhigh))

theorem le_delivered_readNew : g.delivered ≤ (g.readNew count).delivered := by
  change g.delivered ≤ ((g.toRead count).getLast?.map (·.1 + 1)).getD g.delivered
  cases hlast : (g.toRead count).getLast? with
  | none => exact le_rfl
  | some m =>
    exact (mem_unread.mp (mem_of_mem_take (mem_of_getLast? hlast))).2.trans (Nat.le_succ _)

theorem Ordered.delivered_readNew_le (h : g.Ordered) (hmark : g.delivered ≤ g.nextId) :
    (g.readNew count).delivered ≤ g.nextId := by
  change ((g.toRead count).getLast?.map (·.1 + 1)).getD g.delivered ≤ g.nextId
  cases hlast : (g.toRead count).getLast? with
  | none => exact hmark
  | some m => exact h.below m (h.mem_toRead.mp (mem_of_getLast? hlast)).1

theorem lt_of_toRead_eq_nil (hcount : 0 < count) (h : g.toRead count = [])
    (hm : m ∈ g.messages) : m.1 < g.delivered := by
  by_contra hlt
  have hunread : g.unread = [] := by
    rcases take_eq_nil_iff.mp h with hzero | hnil
    · exact absurd hzero hcount.ne'
    · exact hnil
  have hmem : m ∈ g.unread := mem_unread.mpr ⟨hm, not_lt.mp hlt⟩
  rw [hunread] at hmem
  exact not_mem_nil hmem

end StreamGroup

end Varco
