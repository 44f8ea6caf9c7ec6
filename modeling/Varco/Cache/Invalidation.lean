import Varco.Cache.Memory

/-!
# What an invalidation does to later writes

An entry that was set before an invalidation that covers it is a miss from then on. But the marks
stay: nothing the cache does takes a key out of an `ExplicitStrategy` or a tag out of a
`TaggedStrategy`. So an entry that is set after the invalidation is a miss too, and what is read
after a write is what was written exactly if no earlier call has invalidated it
(`get_after_set_iff`).
-/

namespace Varco

open List

variable {ι κ α : Type}

/-! ## What a strategy says -/

namespace InvalidationStrategy

mutual

def leaves : InvalidationStrategy ι → List (InvalidationStrategy ι)
  | .ttl defaultTtl => [.ttl defaultTtl]
  | .explicit id => [.explicit id]
  | .tagged id => [.tagged id]
  | .composite first rest => first.leaves ++ leavesAll rest

def leavesAll : List (InvalidationStrategy ι) → List (InvalidationStrategy ι)
  | [] => []
  | s :: rest => s.leaves ++ leavesAll rest

end

variable [DecidableEq κ] {marks : InvalidationMarks ι κ} {now : ℚ} {key : κ} {entry : CacheEntry α}

def Expired (s : InvalidationStrategy ι) (now : ℚ) (entry : CacheEntry α) : Prop :=
  ∃ defaultTtl, .ttl defaultTtl ∈ s.leaves ∧ expires defaultTtl now entry = true

def Marked (s : InvalidationStrategy ι) (marks : InvalidationMarks ι κ) (key : κ)
    (tags : Finset String) : Prop :=
  (∃ id, .explicit id ∈ s.leaves ∧ key ∈ marks.invalidated id) ∨
    ∃ id tag, .tagged id ∈ s.leaves ∧ tag ∈ tags ∧ tag ∈ marks.invalidatedTags id

mutual

theorem shouldInvalidate_iff_leaves (s : InvalidationStrategy ι) :
    s.shouldInvalidate marks now key entry = true ↔
      ∃ leaf ∈ s.leaves, leaf.shouldInvalidate marks now key entry = true := by
  cases s with
  | ttl defaultTtl => simp [leaves]
  | explicit id => simp [leaves]
  | tagged id => simp [leaves]
  | composite first rest =>
    rw [shouldInvalidate, leaves, Bool.or_eq_true, shouldInvalidate_iff_leaves first,
      anyInvalidates_iff_leaves rest]
    simp only [mem_append, or_and_right, exists_or]

theorem anyInvalidates_iff_leaves (l : List (InvalidationStrategy ι)) :
    anyInvalidates marks now key entry l = true ↔
      ∃ leaf ∈ leavesAll l, leaf.shouldInvalidate marks now key entry = true := by
  cases l with
  | nil => simp [anyInvalidates, leavesAll]
  | cons s rest =>
    rw [anyInvalidates, leavesAll, Bool.or_eq_true, shouldInvalidate_iff_leaves s,
      anyInvalidates_iff_leaves rest]
    simp only [mem_append, or_and_right, exists_or]

end

mutual

theorem leaf_of_mem_leaves (s : InvalidationStrategy ι) {leaf : InvalidationStrategy ι}
    (h : leaf ∈ s.leaves) : ∀ first rest, leaf ≠ .composite first rest := by
  cases s with
  | ttl defaultTtl =>
    obtain rfl : leaf = _ := mem_singleton.mp h
    rintro _ _ ⟨⟩
  | explicit id | tagged id =>
    obtain rfl : leaf = _ := mem_singleton.mp h
    rintro _ _ ⟨⟩
  | composite first rest =>
    rw [leaves] at h
    rcases mem_append.mp h with h | h
    · exact leaf_of_mem_leaves first h
    · exact leaf_of_mem_leavesAll rest h

theorem leaf_of_mem_leavesAll (l : List (InvalidationStrategy ι)) {leaf : InvalidationStrategy ι}
    (h : leaf ∈ leavesAll l) : ∀ first rest, leaf ≠ .composite first rest := by
  cases l with
  | nil => cases h
  | cons s rest =>
    rw [leavesAll] at h
    rcases mem_append.mp h with h | h
    · exact leaf_of_mem_leaves s h
    · exact leaf_of_mem_leavesAll rest h

end

/-- **What a strategy says**: the entry has expired, or is marked. -/
theorem shouldInvalidate_iff (s : InvalidationStrategy ι) :
    s.shouldInvalidate marks now key entry = true ↔
      s.Expired now entry ∨ s.Marked marks key entry.tags := by
  rw [shouldInvalidate_iff_leaves]
  constructor
  · rintro ⟨leaf, hleaf, hinv⟩
    cases leaf with
    | ttl defaultTtl => exact .inl ⟨defaultTtl, hleaf, by simpa [shouldInvalidate] using hinv⟩
    | explicit id => exact .inr (.inl ⟨id, hleaf, by simpa [shouldInvalidate] using hinv⟩)
    | tagged id =>
      have hne : entry.tags ∩ marks.invalidatedTags id ≠ ∅ := by simpa [shouldInvalidate] using hinv
      obtain ⟨tag, htag⟩ := Finset.nonempty_iff_ne_empty.mpr hne
      obtain ⟨h₁, h₂⟩ := Finset.mem_inter.mp htag
      exact .inr (.inr ⟨id, tag, hleaf, h₁, h₂⟩)
    | composite first rest => exact absurd rfl (leaf_of_mem_leaves s hleaf first rest)
  · rintro (⟨defaultTtl, hleaf, hexp⟩ | ⟨id, hleaf, hkey⟩ | ⟨id, tag, hleaf, h₁, h₂⟩)
    · exact ⟨_, hleaf, by simpa [shouldInvalidate] using hexp⟩
    · exact ⟨_, hleaf, by simpa [shouldInvalidate] using hkey⟩
    · refine ⟨_, hleaf, ?_⟩
      have hne := Finset.nonempty_iff_ne_empty.mp ⟨tag, Finset.mem_inter.mpr ⟨h₁, h₂⟩⟩
      simpa [shouldInvalidate] using hne

end InvalidationStrategy

/-! ## What a call does -/

namespace InMemoryCache

variable [DecidableEq ι] [DecidableEq κ] {c : InMemoryCache ι κ} {s : MemoryState ι κ α} {now : ℚ}
  {key : κ} {entry : CacheEntry α} {tags : Finset String} {call : MemoryCall ι κ α}
  {calls : List (MemoryCall ι κ α)}

def Expired (c : InMemoryCache ι κ) (now : ℚ) (entry : CacheEntry α) : Prop :=
  ∃ strategy, c.strategy = some strategy ∧ strategy.Expired now entry

/-- The strategy of the cache has a mark for the key, or for one of the tags. -/
def Marked (c : InMemoryCache ι κ) (marks : InvalidationMarks ι κ) (key : κ)
    (tags : Finset String) : Prop :=
  ∃ strategy, c.strategy = some strategy ∧ strategy.Marked marks key tags

omit [DecidableEq ι] in
theorem stale_iff :
    c.stale s now key entry = true ↔ c.Expired now entry ∨ c.Marked s.marks key entry.tags := by
  unfold stale Expired Marked
  cases c.strategy with
  | none => simp
  | some strategy => simp [InvalidationStrategy.shouldInvalidate_iff]

/-- The call invalidates the key, or one of the tags, with a strategy of the cache. -/
def Covers (c : InMemoryCache ι κ) (key : κ) (tags : Finset String) (op : MemoryOp ι κ α) : Prop :=
  ∃ strategy, c.strategy = some strategy ∧
    match op with
    | .invalidate id key' => .explicit id ∈ strategy.leaves ∧ key = key'
    | .invalidateMany id keys => .explicit id ∈ strategy.leaves ∧ key ∈ keys
    | .invalidateTag id tag => .tagged id ∈ strategy.leaves ∧ tag ∈ tags
    | _ => False

def KeepsMarks : MemoryOp ι κ α → Prop
  | .invalidate .. => False
  | .invalidateMany .. => False
  | .invalidateTag .. => False
  | _ => True

/-- A call leaves the cache started or not, and only an invalidation changes the marks. -/
theorem frame_exec :
    (c.exec call s).2.started = s.started ∧
      (KeepsMarks call.op → (c.exec call s).2.marks = s.marks) := by
  obtain ⟨op, now⟩ := call
  cases op with
  | get key => simp only [exec, get]; repeat' split <;> try exact ⟨rfl, fun _ => rfl⟩
  | set key value ttl tags =>
    simp only [exec, set]; repeat' split <;> try exact ⟨rfl, fun _ => rfl⟩
  | delete key => simp only [exec, delete]; split <;> exact ⟨rfl, fun _ => rfl⟩
  | «exists» key => simp only [exec, «exists»]; repeat' split <;> try exact ⟨rfl, fun _ => rfl⟩
  | clear => simp only [exec, clear]; split <;> exact ⟨rfl, fun _ => rfl⟩
  | deletePrefix keyPrefix =>
    simp only [exec, deletePrefix]; split <;> exact ⟨rfl, fun _ => rfl⟩
  | _ => exact ⟨rfl, False.elim⟩

theorem marks_exec (h : KeepsMarks call.op) : (c.exec call s).2.marks = s.marks := frame_exec.2 h

theorem started_exec : (c.exec call s).2.started = s.started := frame_exec.1

/-- **The marks only grow**: after a call, what was marked before or is covered by it is marked. -/
theorem marked_exec :
    c.Marked (c.exec call s).2.marks key tags ↔
      c.Marked s.marks key tags ∨ c.Covers key tags call.op := by
  unfold Marked Covers
  rw [← exists_or]
  refine exists_congr fun strategy => ?_
  rw [← and_or_left]
  refine and_congr_right fun _ => ?_
  obtain ⟨op, now⟩ := call
  unfold InvalidationStrategy.Marked
  cases op with
  | invalidate id key' =>
    simp only [exec, InvalidationMarks.mem_invalidate, InvalidationMarks.invalidatedTags_invalidate]
    grind
  | invalidateMany id keys =>
    simp only [exec, InvalidationMarks.mem_invalidateMany,
      InvalidationMarks.invalidatedTags_invalidateMany]
    grind
  | invalidateTag id tag =>
    simp only [exec, InvalidationMarks.mem_invalidateTag,
      InvalidationMarks.invalidated_invalidateTag]
    grind
  | _ =>
    rw [marks_exec]
    · simp
    · trivial

/-- The call deletes the key, or evicts it for another one, or reads it when it has expired. -/
def Drops (c : InMemoryCache ι κ) (s : MemoryState ι κ α) (key : κ) (call : MemoryCall ι κ α) :
    Prop :=
  match call.op with
  | .get key' => key' = key ∧ ∃ entry, s.store.get? key = some entry ∧ c.Expired call.now entry
  | .exists key' => key' = key ∧ ∃ entry, s.store.get? key = some entry ∧ c.Expired call.now entry
  | .set key' value ttl tags =>
    c.evicted (s.store.set key' (c.newEntry call.now value ttl tags)) = some key
  | .delete key' => key' = key
  | .clear => True
  | .deletePrefix keyPrefix => (c.str key).startsWith keyPrefix = true
  | _ => False

def Sets (key : κ) (call : MemoryCall ι κ α) : Prop :=
  ∃ value ttl tags, call.op = .set key value ttl tags

omit [DecidableEq ι] in
/-- `exists` leaves what `get` leaves. -/
theorem exists_snd (key : κ) : (c.exists s now key).2 = (c.get s now key).2 := by
  unfold «exists» get
  split
  · split
    · rfl
    · split <;> rfl
  · rfl

omit [DecidableEq ι] in
/-- What a read leaves of an entry: it is there, or it was found to be stale. -/
theorem get?_get (c : InMemoryCache ι κ) (s : MemoryState ι κ α) (now : ℚ) (key key' : κ) :
    (c.get s now key').2.store.get? key = s.store.get? key ∨
      (c.get s now key').2.store.get? key = none ∧ key' = key ∧
        ∃ entry, s.store.get? key = some entry ∧
          (c.Expired now entry ∨ c.Marked s.marks key entry.tags) := by
  unfold get
  split
  · split
    case h_1 => exact .inl rfl
    case h_2 entry hread =>
      split
      case isTrue hstale =>
        by_cases hkey : key' = key
        · subst hkey
          exact .inr ⟨Dict.get?_erase_self .., rfl, entry, hread, stale_iff.mp hstale⟩
        · refine .inl ?_
          rw [Dict.get?_erase, if_neg (Ne.symm hkey)]
      case isFalse => exact .inl rfl
  · exact .inl rfl

/-- **What a call does to an entry** that it does not set: the entry stays, or it is gone and the
call has dropped it or the entry was marked. -/
theorem get?_exec (hset : ¬Sets key call) :
    (c.exec call s).2.store.get? key = s.store.get? key ∨
      (c.exec call s).2.store.get? key = none ∧
        (c.Drops s key call ∨
          ∃ entry, s.store.get? key = some entry ∧ c.Marked s.marks key entry.tags) := by
  obtain ⟨op, now⟩ := call
  cases op with
  | get key' =>
    rcases get?_get c s now key key' with h | ⟨hgone, rfl, entry, hentry, hexp | hmarked⟩
    · exact .inl h
    · exact .inr ⟨hgone, .inl ⟨rfl, entry, hentry, hexp⟩⟩
    · exact .inr ⟨hgone, .inr ⟨entry, hentry, hmarked⟩⟩
  | set key' value ttl tags =>
    have hne : key ≠ key' := by
      rintro rfl
      exact hset ⟨value, ttl, tags, rfl⟩
    have hstored : (s.store.set key' (c.newEntry now value ttl tags)).get? key =
        s.store.get? key := by
      rw [Dict.get?_set, if_neg hne]
    simp only [exec, set]
    split
    · split
      case h_1 => exact .inl hstored
      case h_2 oldestKey hevicted =>
        by_cases hold : key = oldestKey
        · subst hold
          exact .inr ⟨Dict.get?_erase_self .., .inl hevicted⟩
        · refine .inl ?_
          rw [Dict.get?_erase, if_neg hold]
          exact hstored
    · exact .inl rfl
  | delete key' =>
    simp only [exec, delete]
    split
    · by_cases hkey : key' = key
      · subst hkey
        exact .inr ⟨Dict.get?_erase_self .., .inl rfl⟩
      · refine .inl ?_
        rw [Dict.get?_erase, if_neg (Ne.symm hkey)]
    · exact .inl rfl
  | «exists» key' =>
    simp only [exec, exists_snd]
    rcases get?_get c s now key key' with h | ⟨hgone, rfl, entry, hentry, hexp | hmarked⟩
    · exact .inl h
    · exact .inr ⟨hgone, .inl ⟨rfl, entry, hentry, hexp⟩⟩
    · exact .inr ⟨hgone, .inr ⟨entry, hentry, hmarked⟩⟩
  | clear =>
    simp only [exec, clear]
    split
    · exact .inr ⟨rfl, .inl trivial⟩
    · exact .inl rfl
  | deletePrefix keyPrefix =>
    simp only [exec, deletePrefix]
    split
    · rw [Dict.get?_foldl_erase]
      split
      case isTrue hmem => exact .inr ⟨rfl, .inl (mem_filter.mp hmem).2⟩
      case isFalse => exact .inl rfl
    · exact .inl rfl
  | invalidate id key' => exact .inl rfl
  | invalidateMany id keys => exact .inl rfl
  | invalidateTag id tag => exact .inl rfl

/-! ## Sequences of calls -/

def Invalidated (c : InMemoryCache ι κ) (key : κ) (tags : Finset String)
    (calls : List (MemoryCall ι κ α)) : Prop :=
  ∃ call ∈ calls, c.Covers key tags call.op

def Survives (c : InMemoryCache ι κ) (s : MemoryState ι κ α) (key : κ)
    (calls : List (MemoryCall ι κ α)) : Prop :=
  Machine.Along c.exec (fun s call => ¬c.Drops s key call) s calls

theorem marked_final : c.Marked (Machine.final c.exec s calls).marks key tags ↔
    c.Marked s.marks key tags ∨ c.Invalidated key tags calls := by
  induction calls generalizing s with
  | nil => simp [Invalidated]
  | cons call calls ih =>
    rw [Machine.final_cons, ih, marked_exec]
    simp only [Invalidated, exists_mem_cons_iff, or_assoc]

theorem started_final : (Machine.final c.exec s calls).started = s.started := by
  induction calls generalizing s with
  | nil => rfl
  | cons call calls ih => rw [Machine.final_cons, ih, started_exec]

/-- An entry that is not set again stays as it is, or is gone. -/
theorem get?_final (hset : ∀ call ∈ calls, ¬Sets key call)
    (hs : s.store.get? key = some entry ∨ s.store.get? key = none) :
    (Machine.final c.exec s calls).store.get? key = some entry ∨
      (Machine.final c.exec s calls).store.get? key = none := by
  induction calls generalizing s with
  | nil => exact hs
  | cons call calls ih =>
    refine ih (fun call' hcall' => hset call' (mem_cons_of_mem _ hcall')) ?_
    rcases get?_exec (c := c) (s := s) (hset call mem_cons_self) with hkeep | ⟨hgone, -⟩
    · rwa [hkeep]
    · exact .inr hgone

/-- **An entry that is neither set again, nor dropped, nor marked is still there.** -/
theorem get?_final_of_survives (hset : ∀ call ∈ calls, ¬Sets key call)
    (hs : s.store.get? key = some entry) (hsurvives : c.Survives s key calls)
    (hmarked : ¬c.Marked (Machine.final c.exec s calls).marks key entry.tags) :
    (Machine.final c.exec s calls).store.get? key = some entry := by
  induction calls generalizing s with
  | nil => exact hs
  | cons call calls ih =>
    refine ih (fun call' hcall' => hset call' (mem_cons_of_mem _ hcall')) ?_ hsurvives.tail
      hmarked
    rcases get?_exec (c := c) (s := s) (hset call mem_cons_self) with hkeep | ⟨-, hdrop | hm⟩
    · rwa [hkeep]
    · exact absurd hdrop hsurvives.head
    · obtain ⟨entry', hentry', hm⟩ := hm
      cases hs.symm.trans hentry'
      exact absurd (marked_final.mpr (.inl hm)) hmarked

omit [DecidableEq ι] in
theorem get_fst (hs : s.started = true) :
    (c.get s now key).1 = .ok (match s.store.get? key with
      | none => none
      | some entry => if c.stale s now key entry then none else entry.value) := by
  unfold get
  rw [if_pos hs]
  cases s.store.get? key with
  | none => rfl
  | some entry =>
    simp only
    split <;> rfl

omit [DecidableEq ι] in
theorem get_of_marked (hs : s.started = true)
    (hentry : s.store.get? key = some entry ∨ s.store.get? key = none)
    (hmarked : c.Marked s.marks key entry.tags) : (c.get s now key).1 = .ok none := by
  rw [get_fst hs]
  rcases hentry with hentry | hentry
  · have hstale : c.stale s now key entry = true := stale_iff.mpr (.inr hmarked)
    simp [hentry, hstale]
  · rw [hentry]

omit [DecidableEq ι] in
theorem get_of_kept (hs : s.started = true) (hentry : s.store.get? key = some entry)
    (hmarked : ¬c.Marked s.marks key entry.tags) (hexpired : ¬c.Expired now entry) :
    (c.get s now key).1 = .ok entry.value := by
  have hstale : ¬c.stale s now key entry = true := by
    rw [stale_iff]
    rintro (h | h)
    · exact hexpired h
    · exact hmarked h
  rw [get_fst hs]
  simp [hentry, hstale]

/-- What a write leaves under its key: the new entry, unless it is evicted at once. -/
theorem get?_set {value : Option α} {ttl : Option ℚ} {tags : Option (Finset String)} {t : ℚ}
    (hs : s.started = true) :
    (c.exec ⟨.set key value ttl tags, t⟩ s).2.store.get? key =
        some (c.newEntry t value ttl tags) ∨
      (c.exec ⟨.set key value ttl tags, t⟩ s).2.store.get? key = none ∧
        c.Drops s key ⟨.set key value ttl tags, t⟩ := by
  simp only [exec, set, if_pos hs]
  split
  case h_1 hevicted => exact .inl (Dict.get?_set_self ..)
  case h_2 oldestKey hevicted =>
    by_cases hold : key = oldestKey
    · subst hold
      exact .inr ⟨Dict.get?_erase_self .., hevicted⟩
    · refine .inl ?_
      rw [Dict.get?_erase, if_neg hold]
      exact Dict.get?_set_self ..

section

variable (c) (before later : List (MemoryCall ι κ α)) (key : κ) (value : Option α) (ttl : Option ℚ)
  (tags : Option (Finset String)) (t now : ℚ)

/-- What a read of the key returns at `now`, after the calls `before`, a `set` of the key at `t`,
and the calls `later`. -/
def read : Except PyException (Option α) :=
  (c.get (c.after (before ++ ⟨.set key value ttl tags, t⟩ :: later)) now key).1

/-- What was written is read back, if it was not invalidated after the write and not dropped up to
the read; and it is a miss, if it was invalidated after the write. -/
def ReadsBack : Prop :=
  (¬c.Invalidated key (tags.getD ∅) later →
      c.Survives (c.after before) key
        (⟨.set key value ttl tags, t⟩ :: (later ++ [⟨.get key, now⟩])) →
      c.read before later key value ttl tags t now = .ok value) ∧
    (c.Invalidated key (tags.getD ∅) later →
      c.read before later key value ttl tags t now = .ok none)

variable {c before later key value ttl tags t now}

/-- The marks of a cache are what its calls have invalidated. -/
theorem marked_after {calls : List (MemoryCall ι κ α)} {tags : Finset String} :
    c.Marked (c.after calls).marks key tags ↔ c.Invalidated key tags calls := by
  refine marked_final.trans (or_iff_right ?_)
  rintro ⟨strategy, -, ⟨id, -, hmem⟩ | ⟨id, tag, -, -, hmem⟩⟩
  · exact Finset.notMem_empty _ hmem
  · exact Finset.notMem_empty _ hmem

theorem started_after (calls : List (MemoryCall ι κ α)) : (c.after calls).started = true :=
  started_final

/-- After the write, the entry is what was written, or is gone. -/
theorem get?_after (hlast : ∀ call ∈ later, ¬Sets key call) :
    (c.after (before ++ ⟨.set key value ttl tags, t⟩ :: later)).store.get? key =
        some (c.newEntry t value ttl tags) ∨
      (c.after (before ++ ⟨.set key value ttl tags, t⟩ :: later)).store.get? key = none := by
  unfold after
  rw [Machine.final_append, Machine.final_cons]
  refine get?_final hlast ?_
  rcases get?_set (started_after before) with h | ⟨h, -⟩
  · exact .inl h
  · exact .inr h

/-- What was invalidated, before the write or after it, is a miss. -/
theorem read_of_invalidated (hlast : ∀ call ∈ later, ¬Sets key call)
    (h : c.Invalidated key (tags.getD ∅) before ∨ c.Invalidated key (tags.getD ∅) later) :
    c.read before later key value ttl tags t now = .ok none := by
  have hmarked : c.Invalidated key (tags.getD ∅)
      (before ++ ⟨.set key value ttl tags, t⟩ :: later) := by
    rcases h with ⟨call, hcall, hcovers⟩ | ⟨call, hcall, hcovers⟩
    · exact ⟨call, mem_append_left _ hcall, hcovers⟩
    · exact ⟨call, mem_append_right _ (mem_cons_of_mem _ hcall), hcovers⟩
  exact get_of_marked (started_after _) (get?_after hlast) (marked_after.mpr hmarked)

/-- What was never invalidated and not dropped is read back. -/
theorem read_of_survives (hlast : ∀ call ∈ later, ¬Sets key call)
    (hbefore : ¬c.Invalidated key (tags.getD ∅) before)
    (hlater : ¬c.Invalidated key (tags.getD ∅) later)
    (hsurvives : c.Survives (c.after before) key
      (⟨.set key value ttl tags, t⟩ :: (later ++ [⟨.get key, now⟩]))) :
    c.read before later key value ttl tags t now = .ok value := by
  have hset : (c.exec ⟨.set key value ttl tags, t⟩ (c.after before)).2.store.get? key =
      some (c.newEntry t value ttl tags) := by
    rcases get?_set (started_after before) with h | ⟨-, hdrops⟩
    · exact h
    · exact absurd hdrops hsurvives.head
  have hmarked : ¬c.Marked (c.after (before ++ ⟨.set key value ttl tags, t⟩ :: later)).marks key
      (tags.getD ∅) := by
    rw [marked_after]
    rintro ⟨call, hcall, hcovers⟩
    rcases mem_append.mp hcall with hcall | hcall
    · exact hbefore ⟨call, hcall, hcovers⟩
    · rcases mem_cons.mp hcall with rfl | hcall
      · obtain ⟨strategy, -, hfalse⟩ := hcovers
        exact hfalse
      · exact hlater ⟨call, hcall, hcovers⟩
  have hafter : c.after (before ++ ⟨.set key value ttl tags, t⟩ :: later) =
      Machine.final c.exec (c.exec ⟨.set key value ttl tags, t⟩ (c.after before)).2 later := by
    unfold after
    rw [Machine.final_append, Machine.final_cons]
  have hkept : (c.after (before ++ ⟨.set key value ttl tags, t⟩ :: later)).store.get? key =
      some (c.newEntry t value ttl tags) := by
    rw [hafter] at hmarked ⊢
    exact get?_final_of_survives hlast hset hsurvives.tail.left hmarked
  refine get_of_kept (started_after _) hkept hmarked fun hexpired => ?_
  -- the read itself is the last of the calls
  have hread := hsurvives.tail later ⟨.get key, now⟩ [] rfl
  rw [← hafter] at hread
  exact hread ⟨rfl, _, hkept, hexpired⟩

/-- **When a write is read back.** For every sequence of calls on a cache with any strategy: what
the last write of a key has stored is read back until it is invalidated or dropped, and is a miss
once it is invalidated, if and only if no call before the write has invalidated it already (or the
entry was invalidated or dropped since, or is `None`). -/
theorem get_after_set_iff (hlast : ∀ call ∈ later, ¬Sets key call) :
    c.ReadsBack before later key value ttl tags t now ↔
      (¬c.Invalidated key (tags.getD ∅) later →
        c.Survives (c.after before) key
          (⟨.set key value ttl tags, t⟩ :: (later ++ [⟨.get key, now⟩])) →
        value ≠ none → ¬c.Invalidated key (tags.getD ∅) before) := by
  constructor
  · rintro ⟨hback, -⟩ hlater hsurvives hvalue hbefore
    have hmiss : c.read before later key value ttl tags t now = .ok none :=
      read_of_invalidated hlast (.inl hbefore)
    rw [hback hlater hsurvives] at hmiss
    exact hvalue (Except.ok.inj hmiss)
  · intro hcond
    refine ⟨fun hlater hsurvives => ?_, fun hlater => read_of_invalidated hlast (.inr hlater)⟩
    by_cases hbefore : c.Invalidated key (tags.getD ∅) before
    · have hnone : value = none := by
        by_contra hvalue
        exact hcond hlater hsurvives hvalue hbefore
      rw [hnone]
      exact read_of_invalidated hlast (.inl hbefore)
    · exact read_of_survives hlast hbefore hlater hsurvives

end

/-! ## Two sequences of calls -/

/-- A cache with one `ExplicitStrategy` and one `TaggedStrategy`. -/
def marksCache : InMemoryCache ℕ String where
  strategy := some (.composite (.explicit 0) [.tagged 1])
  str := id

theorem marksCache_expired (now : ℚ) (entry : CacheEntry ℕ) : ¬marksCache.Expired now entry := by
  rintro ⟨strategy, hstrategy, defaultTtl, hleaf, -⟩
  cases hstrategy
  simp [InvalidationStrategy.leaves, InvalidationStrategy.leavesAll] at hleaf

/-- Another key is invalidated, and then the one that was written. -/
theorem get_after_set_iff_otherKey :
    marksCache.ReadsBack [⟨.invalidate 0 "j", 0⟩] [⟨.invalidate 0 "k", 2⟩] "k" (some 7) none
      (some {"t"}) 1 3 := by
  refine (get_after_set_iff ?_).mpr ?_
  · rintro call hcall ⟨value, ttl, tags, hop⟩
    rw [mem_singleton.mp hcall] at hop
    cases hop
  · rintro - - - ⟨call, hcall, strategy, -, hcovers⟩
    rw [mem_singleton.mp hcall] at hcovers
    exact absurd hcovers.2 (by decide)

/-- **A write after an invalidation is a miss**: a key is set, invalidated and set again, and the
read that follows at once does not find it. -/
theorem set_after_invalidate_missed :
    marksCache.read [⟨.set "k" (some 6) none none, 0⟩, ⟨.invalidate 0 "k", 1⟩] [] "k" (some 7) none
        none 2 3 = .ok none ∧
      ¬marksCache.ReadsBack [⟨.set "k" (some 6) none none, 0⟩, ⟨.invalidate 0 "k", 1⟩] [] "k"
        (some 7) none none 2 3 := by
  have hmiss : marksCache.read [⟨.set "k" (some 6) none none, 0⟩, ⟨.invalidate 0 "k", 1⟩] [] "k"
      (some 7) none none 2 3 = .ok none := by decide +kernel
  refine ⟨hmiss, fun hback => ?_⟩
  have hread := hback.1 ?_ ?_
  · rw [hmiss] at hread
    cases hread
  · rintro ⟨call, hcall, -⟩
    cases hcall
  · refine .cons ?_ (.cons ?_ .nil)
    · intro hevicted
      cases hevicted
    · rintro ⟨-, entry, -, hexpired⟩
      exact marksCache_expired _ entry hexpired

end InMemoryCache

end Varco
