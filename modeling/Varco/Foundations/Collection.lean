import Mathlib.Data.List.Nodup

/-!
# Document collections

A collection in the manner of MongoDB, with a unique index: no two documents have the same `_id`
(`ident`), or the same key. Each operation is one command of a client. What a collection holds after
a command is said by its members (`mem_insert`, `mem_delete`, `mem_save`), and a document is found
by its key alone (`of_findOne`).
-/

namespace Varco

open List

/-- The documents, with a unique index on `key`. -/
structure Collection {α ι κ : Type} (ident : α → ι) (key : α → κ) where
  docs : List α
  idents : (docs.map ident).Nodup
  keys : (docs.map key).Nodup

namespace Collection

variable {α ι κ : Type} {ident : α → ι} {key : α → κ}

def empty : Collection ident key := ⟨[], nodup_nil, nodup_nil⟩

theorem eq_of_key (m : Collection ident key) {d d' : α} (hd : d ∈ m.docs) (hd' : d' ∈ m.docs)
    (h : key d = key d') : d = d' := inj_on_of_nodup_map m.keys hd hd' h

def deleteMany (m : Collection ident key) (p : α → Bool) : Collection ident key where
  docs := m.docs.filter fun d => !p d
  idents := m.idents.sublist (filter_sublist.map ident)
  keys := m.keys.sublist (filter_sublist.map key)

variable [DecidableEq ι] [DecidableEq κ]

/-- `findOne`, by the key. -/
def findOne (m : Collection ident key) (k : κ) : Option α := m.docs.find? fun d => key d = k

/-- `insertOne`; `none` stands for `DuplicateKeyError`. -/
def insert (m : Collection ident key) (d : α) : Option (Collection ident key) :=
  if h : ident d ∉ m.docs.map ident ∧ key d ∉ m.docs.map key then
    some {
      docs := d :: m.docs
      idents := nodup_cons.mpr ⟨h.1, m.idents⟩
      keys := nodup_cons.mpr ⟨h.2, m.keys⟩ }
  else none

/-- `deleteOne`, by the `_id`. -/
def delete (m : Collection ident key) (i : ι) : Collection ident key :=
  m.deleteMany fun d => ident d = i

/-- `replaceOne` with `upsert`, by the `_id`. -/
def save (m : Collection ident key) (d : α) : Option (Collection ident key) :=
  (m.delete (ident d)).insert d

/-! ## What is in a collection -/

variable {m m' : Collection ident key} {d x : α} {k : κ} {i : ι}

omit [DecidableEq ι] in
theorem of_findOne (h : m.findOne k = some d) : d ∈ m.docs ∧ key d = k := by
  have hkey := List.find?_some (p := fun d => decide (key d = k)) h
  exact ⟨mem_of_find?_eq_some h, of_decide_eq_true hkey⟩

theorem insert_eq_some (h : m.insert d = some m') : m'.docs = d :: m.docs ∧
    (∀ x ∈ m.docs, ident x ≠ ident d) ∧ ∀ x ∈ m.docs, key x ≠ key d := by
  unfold insert at h
  split_ifs at h with hfree
  cases h
  exact ⟨rfl, fun x hx heq => hfree.1 (heq ▸ mem_map_of_mem hx),
    fun x hx heq => hfree.2 (heq ▸ mem_map_of_mem hx)⟩

theorem mem_insert (h : m.insert d = some m') : x ∈ m'.docs ↔ x = d ∨ x ∈ m.docs := by
  rw [(insert_eq_some h).1, mem_cons]

omit [DecidableEq ι] [DecidableEq κ] in
theorem mem_deleteMany {p : α → Bool} : x ∈ (m.deleteMany p).docs ↔ x ∈ m.docs ∧ p x = false := by
  simp [deleteMany]

omit [DecidableEq κ] in
theorem mem_delete : x ∈ (m.delete i).docs ↔ x ∈ m.docs ∧ ident x ≠ i := by
  simp [delete, mem_deleteMany]

theorem mem_save (h : m.save d = some m') :
    x ∈ m'.docs ↔ x = d ∨ x ∈ m.docs ∧ ident x ≠ ident d := by
  rw [mem_insert h, mem_delete]

end Collection

end Varco
