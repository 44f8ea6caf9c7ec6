import Mathlib.Data.List.Nodup

/-!
# Dictionaries in insertion order

A finite map that remembers the order in which its keys were first inserted: writing an existing
key keeps its place, writing a new one appends it, and iteration follows that order. The entries
are a list whose keys are distinct; `mem_entries` reads a lookup as membership, and every other
fact about lookups is derived from it.
-/

namespace Varco

open List hiding beq_eq_decide

/-- A finite map with the order of insertion of its keys. -/
structure Dict (κ α : Type*) where
  entries : List (κ × α)
  nodup : (entries.map Prod.fst).Nodup

namespace Dict

variable {κ α : Type*}

@[ext] theorem ext {d d' : Dict κ α} (h : d.entries = d'.entries) : d = d' := by
  cases d
  cases d'
  cases h
  rfl

instance [DecidableEq κ] [DecidableEq α] : DecidableEq (Dict κ α) := fun d d' =>
  decidable_of_iff (d.entries = d'.entries) ⟨ext, fun h => h ▸ rfl⟩

def empty : Dict κ α := ⟨[], nodup_nil⟩

def values (d : Dict κ α) : List α := d.entries.map Prod.snd

variable [DecidableEq κ]

/-- The value stored under `k`. -/
def get? (d : Dict κ α) (k : κ) : Option α := d.entries.lookup k

/-- Overwrite the value of `k` where it stands. -/
def overwrite (k : κ) (v : α) (p : κ × α) : κ × α := if p.1 = k then (k, v) else p

@[simp] theorem overwrite_fst (k : κ) (v : α) (p : κ × α) : (overwrite k v p).1 = p.1 := by
  unfold overwrite
  split_ifs with h
  · exact h.symm
  · rfl

/-- The entries after writing `v` under `k`. -/
def setEntries (l : List (κ × α)) (k : κ) (v : α) : List (κ × α) :=
  if k ∈ l.map Prod.fst then l.map (overwrite k v) else l ++ [(k, v)]

variable {l : List (κ × α)}

theorem nodup_setEntries (h : (l.map Prod.fst).Nodup) (k : κ) (v : α) :
    ((setEntries l k v).map Prod.fst).Nodup := by
  unfold setEntries
  split_ifs with hk
  · have : Prod.fst ∘ overwrite k v = (Prod.fst : κ × α → κ) := funext (overwrite_fst k v)
    rwa [map_map, this]
  · rw [map_append, nodup_append]
    refine ⟨h, nodup_singleton _, ?_⟩
    rintro a ha b hb rfl
    rw [map_singleton, mem_singleton] at hb
    rw [hb] at ha
    exact hk ha

/-- Write `v` under `k`. -/
def set (d : Dict κ α) (k : κ) (v : α) : Dict κ α :=
  ⟨setEntries d.entries k v, nodup_setEntries d.nodup k v⟩

/-- Remove `k`, if it is there. -/
def erase (d : Dict κ α) (k : κ) : Dict κ α :=
  ⟨d.entries.filter (·.1 ≠ k), d.nodup.sublist ((filter_sublist).map _)⟩

/-- `d[k] = v`, unless there is no value. -/
def setSome (d : Dict κ α) (k : κ) : Option α → Dict κ α
  | some v => d.set k v
  | none => d

/-- The items whose keys are as `p` says. -/
def filterKeys (d : Dict κ α) (p : κ → Bool) : Dict κ α :=
  ⟨d.entries.filter fun e => p e.1, d.nodup.sublist (filter_sublist.map _)⟩

/-- The items that are as `p` says. -/
def filter (d : Dict κ α) (p : κ × α → Bool) : Dict κ α :=
  ⟨d.entries.filter p, d.nodup.sublist (filter_sublist.map _)⟩

/-! ## Lookups -/

variable {d : Dict κ α} {k : κ} {v : α}

theorem mem_entries : (k, v) ∈ d.entries ↔ d.get? k = some v := by
  obtain ⟨l, h⟩ := d
  simp only [get?]
  induction l with
  | nil => simp
  | cons p l ih =>
    obtain ⟨k', v'⟩ := p
    rw [map_cons, nodup_cons] at h
    by_cases hk : k = k'
    · subst hk
      -- no later entry has the key of the first one
      have hl : (k, v) ∉ l := fun hm => h.1 (mem_map.mpr ⟨(k, v), hm, rfl⟩)
      simp [hl, eq_comm]
    · rw [lookup_cons, beq_eq_false_iff_ne.mpr hk]
      simp [hk, ih h.2]

theorem mem_values : v ∈ d.values ↔ ∃ k, d.get? k = some v := by
  simp only [values, mem_map, Prod.exists, exists_eq_right, mem_entries]

@[simp] theorem get?_empty (k : κ) : (empty : Dict κ α).get? k = none := rfl

theorem mem_setEntries {k' : κ} {v' : α} :
    (k', v') ∈ setEntries l k v ↔ k' = k ∧ v' = v ∨ k' ≠ k ∧ (k', v') ∈ l := by
  unfold setEntries
  split_ifs with hk
  · simp only [mem_map, overwrite, Prod.exists]
    constructor
    · rintro ⟨a, b, hab, he⟩
      split_ifs at he with ha
      · exact Or.inl ⟨(Prod.mk.inj he).1.symm, (Prod.mk.inj he).2.symm⟩
      · obtain ⟨rfl, rfl⟩ := Prod.mk.inj he
        exact Or.inr ⟨ha, hab⟩
    · rintro (⟨rfl, rfl⟩ | ⟨hne, hm⟩)
      · obtain ⟨⟨a, b⟩, hab, rfl⟩ := mem_map.mp hk
        exact ⟨a, b, hab, by simp⟩
      · exact ⟨k', v', hm, by simp [hne]⟩
  · have hne : (k', v') ∈ l → k' ≠ k := fun hm he =>
      hk (he ▸ mem_map_of_mem (f := Prod.fst) hm)
    rw [mem_append, mem_singleton, Prod.mk.injEq]
    tauto

theorem get?_set (d : Dict κ α) (k k' : κ) (v : α) :
    (d.set k v).get? k' = if k' = k then some v else d.get? k' := by
  refine Option.ext fun v' => ?_
  rw [← mem_entries]
  change (k', v') ∈ setEntries d.entries k v ↔ _
  rw [mem_setEntries, mem_entries]
  split_ifs with h
  · simp [h, eq_comm]
  · simp [h]

@[simp] theorem get?_set_self (d : Dict κ α) (k : κ) (v : α) : (d.set k v).get? k = some v := by
  simp [get?_set]

theorem get?_erase (d : Dict κ α) (k k' : κ) :
    (d.erase k).get? k' = if k' = k then none else d.get? k' := by
  refine Option.ext fun v' => ?_
  rw [← mem_entries]
  change (k', v') ∈ d.entries.filter (·.1 ≠ k) ↔ _
  rw [mem_filter, mem_entries]
  split_ifs with h
  · simp [h]
  · simp [h]

@[simp] theorem get?_erase_self (d : Dict κ α) (k : κ) : (d.erase k).get? k = none := by
  simp [get?_erase]

theorem get?_setSome (d : Dict κ α) (k k' : κ) (v : Option α) :
    (d.setSome k v).get? k' = if k' = k then v.or (d.get? k') else d.get? k' := by
  cases v with
  | none => simp [setSome]
  | some v => simp [setSome, get?_set]

/-- Writing what there is of a table whose keys are distinct. -/
theorem get?_foldl_setSome (d : Dict κ α) {l : List (κ × Option α)} (h : (l.map Prod.fst).Nodup)
    (k : κ) :
    (l.foldl (fun d e => d.setSome e.1 e.2) d).get? k = ((l.lookup k).join).or (d.get? k) := by
  induction l generalizing d with
  | nil => simp
  | cons e l ih =>
    obtain ⟨k', v⟩ := e
    rw [map_cons, nodup_cons] at h
    rw [foldl_cons, ih _ h.2, get?_setSome, lookup_cons]
    by_cases hk : k = k'
    · have hnone : l.lookup k = none := by
        rw [lookup_eq_none_iff]
        rintro ⟨k'', v'⟩ hmem
        rw [bne_iff_ne]
        rintro rfl
        exact h.1 (hk ▸ mem_map.mpr ⟨_, hmem, rfl⟩)
      subst hk
      simp [hnone]
    · rw [if_neg hk, beq_eq_false_iff_ne.mpr hk]

theorem get?_filterKeys (d : Dict κ α) (p : κ → Bool) (k : κ) :
    (d.filterKeys p).get? k = if p k then d.get? k else none := by
  apply Option.ext
  intro v
  rw [← mem_entries, filterKeys, mem_filter, mem_entries]
  split_ifs with h <;> simp [h]

theorem get?_foldl_set (f : κ → α) (d : Dict κ α) (ks : List κ) (k : κ) :
    (ks.foldl (fun d k => d.set k (f k)) d).get? k = if k ∈ ks then some (f k) else d.get? k := by
  induction ks generalizing d with
  | nil => simp
  | cons k' ks ih =>
    rw [foldl_cons, ih, get?_set]
    by_cases hk : k = k'
    · simp [hk]
    · simp [hk]

theorem get?_foldl_erase (d : Dict κ α) (ks : List κ) (k : κ) :
    (ks.foldl (fun d k => d.erase k) d).get? k = if k ∈ ks then none else d.get? k := by
  induction ks generalizing d with
  | nil => simp
  | cons k' ks ih =>
    rw [foldl_cons, ih, get?_erase]
    by_cases hk : k = k'
    · simp [hk]
    · simp [hk]

theorem get?_foldl_set_entries (d : Dict κ α) (h : (l.map Prod.fst).Nodup) (k : κ) :
    (l.foldl (fun d p => d.set p.1 p.2) d).get? k = (l.lookup k).or (d.get? k) := by
  induction l generalizing d with
  | nil => rfl
  | cons p l ih =>
    obtain ⟨k', v⟩ := p
    rw [map_cons, nodup_cons] at h
    rw [foldl_cons, ih _ h.2, get?_set, lookup_cons]
    by_cases hk : k = k'
    · subst hk
      have hnone : l.lookup k = none := by
        rw [lookup_eq_none_iff]
        intro q hq
        rw [bne_iff_ne]
        rintro rfl
        exact h.1 (mem_map.mpr ⟨q, hq, rfl⟩)
      simp [hnone]
    · simp [hk, beq_eq_false_iff_ne.mpr hk]

/-! ## Lengths -/

theorem length_filter_ne (h : (l.map Prod.fst).Nodup)
    (hk : k ∈ l.map Prod.fst) : (l.filter (·.1 ≠ k)).length + 1 = l.length := by
  induction l with
  | nil => exact absurd hk not_mem_nil
  | cons p l ih =>
    rw [map_cons, nodup_cons] at h
    by_cases hp : p.1 = k
    · subst hp
      have hrest : l.filter (·.1 ≠ p.1) = l := by
        refine filter_eq_self.mpr fun q hq => decide_eq_true fun he => h.1 ?_
        exact he ▸ mem_map_of_mem hq
      rw [filter_cons_of_neg (by simp), hrest, length_cons]
    · have hk' : k ∈ l.map Prod.fst := by
        rw [map_cons, mem_cons] at hk
        exact hk.resolve_left (Ne.symm hp)
      rw [filter_cons_of_pos (by simpa using hp), length_cons, length_cons,
        ih h.2 hk']

theorem mem_keys (h : d.get? k = some v) :
    k ∈ d.entries.map Prod.fst :=
  mem_map_of_mem (f := Prod.fst) (mem_entries.mpr h)

theorem length_erase (h : d.get? k = some v) :
    (d.erase k).entries.length + 1 = d.entries.length :=
  length_filter_ne d.nodup (mem_keys h)

theorem keys_erase (d : Dict κ α) (k : κ) :
    (d.erase k).entries.map Prod.fst = (d.entries.map Prod.fst).erase k := by
  rw [d.nodup.erase_eq_filter, filter_map]
  congr 1
  exact filter_congr fun p _ => by simp [bne, beq_eq_decide]

theorem entries_set_new (h : d.get? k = none) (v : α) :
    (d.set k v).entries = d.entries ++ [(k, v)] := by
  have hk : k ∉ d.entries.map Prod.fst := by
    intro hk
    obtain ⟨p, hp, rfl⟩ := mem_map.mp hk
    cases h.symm.trans (mem_entries.mp hp)
  exact if_neg hk

theorem length_set (h : d.get? k = some v) (v' : α) :
    (d.set k v').entries.length = d.entries.length := by
  change (setEntries d.entries k v').length = d.entries.length
  rw [setEntries, if_pos (mem_keys h), length_map]

theorem entries_eq_nil : d.entries = [] ↔ ∀ k, d.get? k = none := by
  constructor
  · intro h k
    simp [get?, h]
  · intro h
    refine eq_nil_iff_forall_not_mem.mpr fun p hp => ?_
    cases (h p.1).symm.trans (mem_entries.mp hp)

/-! ## Parts of a dictionary -/

theorem entries_set_old (h : d.get? k = some v) (v' : α) :
    (d.set k v').entries = d.entries.map (overwrite k v') :=
  if_pos (mem_keys h)

theorem get?_filter (d : Dict κ α) (p : κ × α → Bool) (k : κ) :
    (d.filter p).get? k = (d.get? k).filter fun v => p (k, v) := by
  apply Option.ext
  intro v
  rw [← mem_entries, filter, mem_filter, mem_entries, Option.filter_eq_some_iff]

omit [DecidableEq κ] in
theorem entries_filter (d : Dict κ α) (p : κ × α → Bool) :
    (d.filter p).entries = d.entries.filter p := rfl

/-- The item under `k`, if there is one, is as `p` says, or is not. -/
def AllAt (d : Dict κ α) (p : κ × α → Bool) (k : κ) (b : Bool) : Prop :=
  ∀ v, d.get? k = some v → p (k, v) = b

variable {p : κ × α → Bool}

theorem AllAt.of_mem {b : Bool} (h : d.AllAt p k b)
    {e : κ × α} (he : e ∈ d.entries) (hk : e.1 = k) : p e = b := by
  subst hk
  exact h e.2 (mem_entries.mp he)

theorem overwrite_of_ne {e : κ × α} (h : e.1 ≠ k) : overwrite k v e = e := if_neg h

theorem overwrite_of_eq {e : κ × α} (h : e.1 = k) : overwrite k v e = (k, v) :=
  if_pos h

/-- A part is written to where the new item and the one that it replaces belong to it. -/
theorem filter_set (hv : p (k, v) = true)
    (h : d.AllAt p k true) : (d.set k v).filter p = (d.filter p).set k v := by
  apply ext
  rw [entries_filter]
  cases hk : d.get? k with
  | none =>
    have hk' : (d.filter p).get? k = none := by rw [get?_filter, hk, Option.filter_none]
    rw [entries_set_new hk', entries_set_new hk, entries_filter, filter_append,
      filter_cons_of_pos hv, filter_nil]
  | some v₀ =>
    have hk' : (d.filter p).get? k = some v₀ := by
      rw [get?_filter, hk, Option.filter_some, if_pos (h v₀ hk)]
    rw [entries_set_old hk', entries_set_old hk, entries_filter, filter_map]
    congr 1
    refine filter_congr fun e he => ?_
    by_cases hek : e.1 = k
    · rw [Function.comp_apply, overwrite_of_eq hek, hv, h.of_mem he hek]
    · rw [Function.comp_apply, overwrite_of_ne hek]

/-- A part is not touched where neither the new item nor the one that it replaces belongs to it. -/
theorem filter_set_of_not
    (hv : p (k, v) = false) (h : d.AllAt p k false) : (d.set k v).filter p = d.filter p := by
  apply ext
  rw [entries_filter, entries_filter]
  cases hk : d.get? k with
  | none =>
    rw [entries_set_new hk, filter_append, filter_cons_of_neg (by simp [hv]),
      filter_nil, append_nil]
  | some v₀ =>
    rw [entries_set_old hk, filter_map]
    have hsame : d.entries.filter (p ∘ overwrite k v) = d.entries.filter p := by
      refine filter_congr fun e he => ?_
      by_cases hek : e.1 = k
      · rw [Function.comp_apply, overwrite_of_eq hek, hv, h.of_mem he hek]
      · rw [Function.comp_apply, overwrite_of_ne hek]
    rw [hsame]
    refine (map_congr_left fun e he => ?_).trans (map_id _)
    obtain ⟨he, hp⟩ := mem_filter.mp he
    refine overwrite_of_ne fun hek => ?_
    rw [h.of_mem he hek] at hp
    cases hp

theorem filter_erase (d : Dict κ α) (p : κ × α → Bool) (k : κ) :
    (d.erase k).filter p = (d.filter p).erase k := by
  apply ext
  change List.filter p (List.filter _ _) = List.filter _ (List.filter p _)
  rw [filter_filter, filter_filter]
  exact filter_congr fun e _ => Bool.and_comm ..

theorem filter_erase_of_not (h : d.AllAt p k false) :
    (d.erase k).filter p = d.filter p := by
  apply ext
  change List.filter p (List.filter _ _) = List.filter p _
  rw [filter_filter]
  refine filter_congr fun e he => ?_
  by_cases hek : e.1 = k
  · rw [h.of_mem he hek, Bool.false_and]
  · simp [hek]

end Dict

end Varco
