import Mathlib.Data.List.Nodup

/-!
# Tables with a primary key

A finite table in which a row is found by a key that can be read off the row, and no two rows have
the same key: the field `nodup` says so, and every operation keeps it.
-/

namespace Varco

/-- Rows by key. -/
structure KeyedMap {κ α : Type} (key : α → κ) where
  rows : List α
  nodup : (rows.map key).Nodup

namespace KeyedMap

variable {κ α : Type} [DecidableEq κ] {key : α → κ}

def empty : KeyedMap key := ⟨[], List.nodup_nil⟩

def get (m : KeyedMap key) (k : κ) : Option α := m.rows.find? (key · = k)

def erase (m : KeyedMap key) (k : κ) : KeyedMap key where
  rows := m.rows.filter (key · ≠ k)
  nodup := m.nodup.sublist (List.filter_sublist.map _)

def put (m : KeyedMap key) (a : α) : KeyedMap key where
  rows := a :: (m.erase (key a)).rows
  nodup := by
    rw [List.map_cons, List.nodup_cons]
    refine ⟨fun h => ?_, (m.erase (key a)).nodup⟩
    obtain ⟨b, hb, hkey⟩ := List.mem_map.mp h
    simp [erase, hkey] at hb

variable {m : KeyedMap key} {a : α} {k : κ}

theorem keyed (h : m.get k = some a) : key a = k := by
  simpa using List.find?_some h

theorem get_of_mem (h : a ∈ m.rows) : m.get (key a) = some a := by
  obtain ⟨rows, hnodup⟩ := m
  change rows.find? (key · = key a) = some a
  induction rows with
  | nil => cases h
  | cons b rows ih =>
    rw [List.map_cons, List.nodup_cons] at hnodup
    rcases List.mem_cons.mp h with rfl | h
    · simp
    · have hne : key b ≠ key a := fun he => hnodup.1 (he ▸ List.mem_map_of_mem h)
      rw [List.find?_cons_of_neg (by simpa using hne)]
      exact ih hnodup.2 h

theorem map_key_filterMap_get {ks : List κ} (h : ∀ k ∈ ks, m.get k ≠ none) :
    (ks.filterMap m.get).map key = ks := by
  induction ks with
  | nil => rfl
  | cons k ks ih =>
    obtain ⟨a, ha⟩ := Option.ne_none_iff_exists'.mp (h k List.mem_cons_self)
    have hks := ih fun k' hk' => h k' (List.mem_cons_of_mem _ hk')
    simp [ha, keyed ha, hks]

theorem get_erase (m : KeyedMap key) (k k' : κ) :
    (m.erase k).get k' = if k' = k then none else m.get k' := by
  unfold get erase
  rw [List.find?_filter]
  split_ifs with hk
  · subst hk
    simp
  · congr 1
    funext b
    by_cases hb : key b = k'
    · simp [hb, hk]
    · simp [hb]

theorem get_put (m : KeyedMap key) (a : α) (k : κ) :
    (m.put a).get k = if k = key a then some a else m.get k := by
  split_ifs with hk
  · subst hk
    simp [get, put]
  · have hne : ¬key a = k := fun he => hk he.symm
    have herase : (m.put a).get k = (m.erase (key a)).get k :=
      List.find?_cons_of_neg (by simpa using hne)
    rw [herase, get_erase, if_neg hk]

@[simp] theorem get_put_self (m : KeyedMap key) (a : α) : (m.put a).get (key a) = some a := by
  rw [get_put, if_pos rfl]

theorem get_put_ne (m : KeyedMap key) (h : key a ≠ k) : (m.put a).get k = m.get k := by
  rw [get_put, if_neg (Ne.symm h)]

end KeyedMap

end Varco
