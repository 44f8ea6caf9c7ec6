import Varco.Foundations.KeyedMap
import Varco.Foundations.Pool
import Varco.Foundations.Python

/-!
# A table under READ COMMITTED

Transactions over one table with a primary key. A statement is atomic and sees the committed rows
with the transaction's own changes on top (`view`); a plain `SELECT` takes no lock. A write locks
its row until the transaction ends, and waits for a lock that another transaction holds: while it
waits, there is no such step. `COMMIT` makes the changes of the transaction visible all at once.

`Effect` says what a statement can do. From it follow the two facts that proofs about interleavings
rest on: a locked row is left alone by everybody else (`Effect.get_of_held`), and a row that nobody
has changed in the open transaction is not touched by its `COMMIT` (`Database.view_get`).
-/

namespace Varco

open Function

namespace Sql

variable {κ α : Type} {key : α → κ}

/-- A change of one row, not yet committed. -/
inductive Change (key : α → κ)
  | put (a : α)
  | erase (k : κ)

namespace Change

def rowKey : Change key → κ
  | put a => key a
  | erase k => k

def after : Change key → Option α
  | put a => some a
  | erase _ => none

def apply [DecidableEq κ] (m : KeyedMap key) : Change key → KeyedMap key
  | put a => m.put a
  | erase k => m.erase k

variable [DecidableEq κ]

theorem get_apply (m : KeyedMap key) (c : Change key) (k : κ) :
    (c.apply m).get k = if k = c.rowKey then c.after else m.get k := by
  cases c with
  | put a => exact m.get_put a k
  | erase k' => exact m.get_erase k' k

def applyAll (m : KeyedMap key) (cs : List (Change key)) : KeyedMap key :=
  cs.foldl apply m

theorem applyAll_snoc (m : KeyedMap key) (cs : List (Change key)) (c : Change key) :
    applyAll m (cs ++ [c]) = c.apply (applyAll m cs) := by
  simp [applyAll]

theorem get_applyAll {m : KeyedMap key} {cs : List (Change key)} {k : κ}
    (h : ∀ c ∈ cs, c.rowKey ≠ k) : (applyAll m cs).get k = m.get k := by
  induction cs using List.reverseRecOn with
  | nil => rfl
  | append_singleton cs c ih =>
    have hc : k ≠ c.rowKey := (h c (by simp)).symm
    have hcs : ∀ c' ∈ cs, c'.rowKey ≠ k := fun c' hc' => h c' (by simp [hc'])
    rw [applyAll_snoc, get_apply, if_neg hc, ih hcs]

/-- A row after several changes is as it was, or as one of them has left it. -/
theorem get_applyAll_cases (m : KeyedMap key) (cs : List (Change key)) (k : κ) :
    (applyAll m cs).get k = m.get k ∨
      ∃ c ∈ cs, c.rowKey = k ∧ (applyAll m cs).get k = c.after := by
  induction cs using List.reverseRecOn with
  | nil => exact Or.inl rfl
  | append_singleton cs c ih =>
    rw [applyAll_snoc, get_apply]
    split_ifs with hk
    · exact Or.inr ⟨c, by simp, hk.symm, rfl⟩
    · rcases ih with h | ⟨c', hc', hkey, h⟩
      · exact Or.inl h
      · exact Or.inr ⟨c', by simp [hc'], hkey, h⟩

end Change

/-- The statements. An `UPDATE` does not set the primary key. -/
inductive Stmt (key : α → κ)
  | select (p : α → Bool) (limit : Option ℤ)
  /-- `SELECT ... FOR UPDATE SKIP LOCKED` of one key. -/
  | selectForUpdate (k : κ)
  | update (k : κ) (p : α → Bool) (f : α → α) (hf : ∀ a, key (f a) = key a)
  | delete (k : κ)
  | insert (a : α)
  | commit
  | rollback

abbrev Stmt.Res : Stmt key → Type
  | .select .. => List α
  | .selectForUpdate _ => Option α
  | .update .. => ℕ
  | .delete _ => ℕ
  | _ => Unit

def Stmt.target : Stmt key → Option κ
  | .update k .. => some k
  | .delete k => some k
  | .insert a => some (key a)
  | _ => none

/-- A client reads the clock and sends statements. -/
inductive Cmd (key : α → κ)
  /-- `datetime.now(UTC)` -/
  | now
  | stmt (s : Stmt key)

abbrev Cmd.Res : Cmd key → Type
  | .now => Instant
  | .stmt s => Except PyException s.Res

/-- How a statement may fail: the answer is lost, before or after it was carried out. -/
inductive Fault
  | before (e : PyException)
  | after (e : PyException)

/-- What the environment chooses: the time, the order of the rows of an answer, and a fault. -/
structure Choice (κ : Type) where
  clock : Instant
  order : List κ := []
  fault : Option Fault := none

/-- The committed rows, and for each row who has locked it and for each client the changes of its
open transaction. -/
structure Database (ι : Type) (key : α → κ) where
  rows : KeyedMap key
  clock : Instant := 0
  lock : κ → Option ι := fun _ => none
  drafts : ι → List (Change key) := fun _ => []

def integrityError : PyException := ⟨"IntegrityError", "UNIQUE constraint failed"⟩

namespace Database

variable {ι : Type} [DecidableEq κ]

/-- What the transaction of `i` sees. -/
def view (db : Database ι key) (i : ι) : KeyedMap key := Change.applyAll db.rows (db.drafts i)

variable [DecidableEq ι]

def lockedByOther (db : Database ι key) (i : ι) (k : κ) : Bool := (db.lock k).any (· ≠ i)

def acquire (db : Database ι key) (i : ι) (k : κ) : Database ι key :=
  { db with lock := update db.lock k (some i) }

def change (db : Database ι key) (i : ι) (c : Change key) : Database ι key :=
  { db.acquire i c.rowKey with drafts := update db.drafts i (db.drafts i ++ [c]) }

/-- End the transaction of `i`. -/
def rollback (db : Database ι key) (i : ι) : Database ι key :=
  { db with
    lock := fun k => if db.lock k = some i then none else db.lock k
    drafts := update db.drafts i [] }

/-- End the transaction of `i` and make its changes visible. -/
def commit (db : Database ι key) (i : ι) : Database ι key :=
  { db.rollback i with rows := db.view i }

/-- What a statement of `i` does; `none` while it waits for a lock, or if `order` is no order of the
rows it answers. -/
def perform (i : ι) (order : List κ) :
    (s : Stmt key) → Database ι key → Option (Except PyException s.Res × Database ι key)
  | .select p limit, db =>
    if order.Perm (((db.view i).rows.filter p).map key) then
      let rows := order.filterMap (db.view i).get
      some (.ok ((limit.map fun n => rows.take n.toNat).getD rows), db)
    else none
  | .selectForUpdate k, db =>
    if db.lockedByOther i k then some (.ok none, db)
    else
      match (db.view i).get k with
      | none => some (.ok none, db)
      | some a => some (.ok (some a), db.acquire i k)
  | .update k p f _, db =>
    if db.lockedByOther i k then if (db.rows.get k).isSome then none else some (.ok 0, db)
    else
      match (db.view i).get k with
      | none => some (.ok 0, db)
      | some a => if p a then some (.ok 1, db.change i (.put (f a))) else some (.ok 0, db)
  | .delete k, db =>
    if db.lockedByOther i k then if (db.rows.get k).isSome then none else some (.ok 0, db)
    else
      match (db.view i).get k with
      | none => some (.ok 0, db)
      | some _ => some (.ok 1, db.change i (.erase k))
  | .insert a, db =>
    if db.lockedByOther i (key a) then none
    else
      match (db.view i).get (key a) with
      | none => some (.ok (), db.change i (.put a))
      | some _ => some (.error integrityError, db)
  | .commit, db => some (.ok (), db.commit i)
  | .rollback, db => some (.ok (), db.rollback i)

def performFaulty (i : ι) (x : Choice κ) (s : Stmt key) (db : Database ι key) :
    Option (Except PyException s.Res × Database ι key) :=
  match x.fault with
  | none => perform i x.order s db
  | some (.before e) => some (.error e, db)
  | some (.after e) => (perform i x.order s db).map fun (_, db') => (.error e, db')

/-- One command of client `i`; the clock never goes back. A rollback is never in vain: the server
ends the transaction of a connection that is lost. -/
def exec (i : ι) (x : Choice κ) (c : Cmd key) (db : Database ι key) :
    Option (c.Res × Database ι key) :=
  if x.clock < db.clock then none
  else
    match c with
    | .now => some (x.clock, { db with clock := x.clock })
    | .stmt .rollback => perform i x.order .rollback { db with clock := x.clock }
    | .stmt s => performFaulty i x s { db with clock := x.clock }

/-! ## What a command can do -/

def Free (db : Database ι key) (i : ι) (k : κ) : Prop := ∀ j, db.lock k = some j → j = i

/-- The change that a statement makes, when it sees the table `m`. -/
def Makes (m : KeyedMap key) (c : Change key) : Stmt key → Prop
  | .update k p f _ => ∃ a, m.get k = some a ∧ p a = true ∧ c = .put (f a)
  | .delete k => m.get k ≠ none ∧ c = .erase k
  | .insert a => m.get (key a) = none ∧ c = .put a
  | _ => False

/-- The effect of a command of `i`: none, a lock, a change of a row that is free, or the end of the
transaction. -/
inductive Effect (i : ι) (db : Database ι key) : Cmd key → Database ι key → Prop
  | none {c : Cmd key} : Effect i db c db
  | locked {k : κ} : db.Free i k → Effect i db (.stmt (.selectForUpdate k)) (db.acquire i k)
  | changed {s : Stmt key} {c : Change key} : db.Free i c.rowKey → Makes (db.view i) c s →
      Effect i db (.stmt s) (db.change i c)
  | committed : Effect i db (.stmt .commit) (db.commit i)
  | ended : Effect i db (.stmt .rollback) (db.rollback i)

variable {i j : ι} {db db' : Database ι key} {k : κ}

omit [DecidableEq κ] in
theorem free_of_not_lockedByOther (h : ¬db.lockedByOther i k = true) : db.Free i k := by
  intro j hj
  by_contra hne
  exact h (by simp [lockedByOther, hj, hne])

theorem rowKey_of_makes {m : KeyedMap key} {c : Change key} {s : Stmt key} (h : Makes m c s) :
    s.target = some c.rowKey := by
  cases s with
  | update k p f hf =>
    obtain ⟨a, ha, -, rfl⟩ := h
    simp [Stmt.target, Change.rowKey, hf, KeyedMap.keyed ha]
  | delete k =>
    obtain ⟨-, rfl⟩ := h
    rfl
  | insert a =>
    obtain ⟨-, rfl⟩ := h
    rfl
  | _ => exact absurd h not_false

theorem effect_of_perform {order : List κ} {s : Stmt key} {r : Except PyException s.Res}
    (h : db.perform i order s = some (r, db')) : Effect i db (.stmt s) db' := by
  cases s with
  | select p limit =>
    simp only [perform] at h
    split_ifs at h
    cases h
    exact .none
  | selectForUpdate k =>
    simp only [perform] at h
    split_ifs at h with hlock
    · cases h
      exact .none
    · have hfree := free_of_not_lockedByOther hlock
      cases hget : (db.view i).get k with
      | none =>
        rw [hget] at h
        cases h
        exact .none
      | some a =>
        rw [hget] at h
        cases h
        exact .locked hfree
  | update k p f hf =>
    simp only [perform] at h
    split_ifs at h with hlock hrow
    · cases h
      exact .none
    · have hfree := free_of_not_lockedByOther hlock
      cases hget : (db.view i).get k with
      | none =>
        rw [hget] at h
        cases h
        exact .none
      | some a =>
        rw [hget] at h
        simp only at h
        split_ifs at h with hp
        · cases h
          have hmakes : Makes (db.view i) (.put (f a)) (.update k p f hf) := ⟨a, hget, hp, rfl⟩
          have hkey : k = (Change.put (f a) : Change key).rowKey :=
            Option.some.inj (rowKey_of_makes hmakes)
          exact .changed (hkey ▸ hfree) hmakes
        · cases h
          exact .none
  | delete k =>
    simp only [perform] at h
    split_ifs at h with hlock hrow
    · cases h
      exact .none
    · have hfree := free_of_not_lockedByOther hlock
      cases hget : (db.view i).get k with
      | none =>
        rw [hget] at h
        cases h
        exact .none
      | some a =>
        rw [hget] at h
        cases h
        exact .changed hfree ⟨by simp [hget], rfl⟩
  | insert a =>
    simp only [perform] at h
    split_ifs at h with hlock
    have hfree := free_of_not_lockedByOther hlock
    cases hget : (db.view i).get (key a) with
    | none =>
      rw [hget] at h
      cases h
      exact .changed hfree ⟨hget, rfl⟩
    | some b =>
      rw [hget] at h
      cases h
      exact .none
  | commit =>
    cases h
    exact .committed
  | rollback =>
    cases h
    exact .ended

variable {x : Choice κ}

theorem effect_of_performFaulty {s : Stmt key} {r : Except PyException s.Res}
    (h : db.performFaulty i x s = some (r, db')) : Effect i db (.stmt s) db' := by
  unfold performFaulty at h
  split at h
  · exact effect_of_perform h
  · cases h
    exact .none
  · obtain ⟨⟨r', db''⟩, hp, he⟩ := Option.map_eq_some_iff.mp h
    cases he
    exact effect_of_perform hp

variable {c : Cmd key}

/-- **What a command can do.** -/
theorem effect_of_exec {r : c.Res}
    (h : db.exec i x c = some (r, db')) : Effect i { db with clock := x.clock } c db' := by
  unfold exec at h
  split_ifs at h
  cases c with
  | now =>
    cases h
    exact .none
  | stmt s =>
    cases s with
    | rollback => exact effect_of_perform h
    | _ => exact effect_of_performFaulty h

/-! ## Locks -/

def Locked (db : Database ι key) : Prop := ∀ i, ∀ c ∈ db.drafts i, db.lock c.rowKey = some i

omit [DecidableEq κ] [DecidableEq ι] in
theorem locked_of_no_drafts (h : ∀ i, db.drafts i = []) : db.Locked := by
  intro i c hc
  simp [h i] at hc

theorem drafts_change (db : Database ι key) (i j : ι) (c : Change key) :
    (db.change i c).drafts j = if j = i then db.drafts i ++ [c] else db.drafts j := by
  simp only [change, update_apply]

theorem lock_change (db : Database ι key) (i : ι) (c : Change key) (k : κ) :
    (db.change i c).lock k = if k = c.rowKey then some i else db.lock k := by
  simp only [change, acquire, update_apply]

omit [DecidableEq κ] in
theorem drafts_rollback (db : Database ι key) (i j : ι) :
    (db.rollback i).drafts j = if j = i then [] else db.drafts j := by
  simp only [rollback, update_apply]

theorem drafts_commit (db : Database ι key) (i j : ι) :
    (db.commit i).drafts j = if j = i then [] else db.drafts j := db.drafts_rollback i j

/-- A lock stays with its holder as long as only others act. -/
theorem Effect.lock_of_held (h : Effect j db c db') (hne : j ≠ i)
    (hk : db.lock k = some i) : db'.lock k = some i := by
  cases h with
  | none => exact hk
  | @locked k' hfree =>
    have hkk : k ≠ k' := by
      rintro rfl
      exact hne (hfree i hk).symm
    simp [acquire, update_of_ne hkk, hk]
  | @changed s c' hfree _ =>
    have hkk : k ≠ c'.rowKey := by
      rintro rfl
      exact hne (hfree i hk).symm
    rw [lock_change, if_neg hkk, hk]
  | committed => simp [commit, rollback, hk, hne.symm]
  | ended => simp [rollback, hk, hne.symm]

theorem Effect.drafts_of_ne (h : Effect j db c db') (hne : j ≠ i) :
    db'.drafts i = db.drafts i := by
  cases h with
  | none => rfl
  | locked => rfl
  | changed => rw [drafts_change, if_neg hne.symm]
  | committed => rw [drafts_commit, if_neg hne.symm]
  | ended => rw [drafts_rollback, if_neg hne.symm]

/-- A change of the open transaction was there before, or the command has made it. While there is
one, nothing is committed. -/
theorem Effect.drafts_self (h : Effect i db c db') {c' : Change key} (hc' : c' ∈ db'.drafts i) :
    db'.rows = db.rows ∧ (c' ∈ db.drafts i ∨ ∃ s, c = .stmt s ∧ Makes (db.view i) c' s) := by
  cases h with
  | none => exact ⟨rfl, Or.inl hc'⟩
  | locked => exact ⟨rfl, Or.inl hc'⟩
  | @changed s c'' _ hmakes =>
    rw [drafts_change, if_pos rfl] at hc'
    rcases List.mem_append.mp hc' with hc' | hc'
    · exact ⟨rfl, Or.inl hc'⟩
    · rw [List.mem_singleton.mp hc']
      exact ⟨rfl, Or.inr ⟨s, rfl, hmakes⟩⟩
  | committed =>
    rw [drafts_commit, if_pos rfl] at hc'
    cases hc'
  | ended =>
    rw [drafts_rollback, if_pos rfl] at hc'
    cases hc'

/-- **Every command keeps the locks.** -/
theorem Locked.effect (hl : db.Locked) (h : Effect j db c db') : db'.Locked := by
  intro i c' hc'
  by_cases hne : j = i
  · subst hne
    cases h with
    | none => exact hl j c' hc'
    | @locked k' hfree =>
      have hheld := hl j c' hc'
      by_cases hkk : c'.rowKey = k'
      · simp [acquire, hkk]
      · simp [acquire, update_of_ne hkk, hheld]
    | @changed s c'' hfree _ =>
      rw [drafts_change, if_pos rfl] at hc'
      rw [lock_change]
      split_ifs with hkk
      · rfl
      · rcases List.mem_append.mp hc' with hc' | hc'
        · exact hl j c' hc'
        · rw [List.mem_singleton.mp hc'] at hkk
          exact absurd rfl hkk
    | committed =>
      rw [drafts_commit, if_pos rfl] at hc'
      cases hc'
    | ended =>
      rw [drafts_rollback, if_pos rfl] at hc'
      cases hc'
  · rw [h.drafts_of_ne hne] at hc'
    exact h.lock_of_held hne (hl i c' hc')

/-! ## Rows -/

omit [DecidableEq ι] in
/-- A transaction sees the committed row of a key that it has not changed. -/
theorem view_get (h : ∀ c ∈ db.drafts i, c.rowKey ≠ k) : (db.view i).get k = db.rows.get k :=
  Change.get_applyAll h

theorem Effect.rows_eq (h : Effect j db c db') (hc : c ≠ .stmt .commit) :
    db'.rows = db.rows := by
  cases h with
  | committed => exact absurd rfl hc
  | _ => rfl

theorem Effect.clock_eq (h : Effect j db c db') : db'.clock = db.clock := by
  cases h <;> rfl

/-- A command leaves a row as it is, or makes a change of its own transaction visible. -/
theorem Effect.get_cases (h : Effect j db c db') (k : κ) :
    db'.rows.get k = db.rows.get k ∨
      ∃ c' ∈ db.drafts j, c'.rowKey = k ∧ db'.rows.get k = c'.after := by
  cases h with
  | committed => exact Change.get_applyAll_cases db.rows (db.drafts j) k
  | _ => exact Or.inl rfl

/-- A row is left alone by a transaction that has not changed it. -/
theorem Effect.get_of_clean (h : Effect j db c db')
    (hk : ∀ c' ∈ db.drafts j, c'.rowKey ≠ k) : db'.rows.get k = db.rows.get k := by
  rcases h.get_cases k with hsame | ⟨c', hc', hkey, -⟩
  · exact hsame
  · exact absurd hkey (hk c' hc')

/-- **A locked row is left alone by the others.** -/
theorem Effect.get_of_held (h : Effect j db c db') (hl : db.Locked) (hne : j ≠ i)
    (hk : db.lock k = some i) : db'.rows.get k = db.rows.get k := by
  apply h.get_of_clean
  rintro c' hc' rfl
  have hheld := hl j c' hc'
  rw [hk] at hheld
  exact hne (Option.some.inj hheld).symm

/-! ## Answers -/

/-- What every answer satisfies: a `SELECT` answers rows that match, each once. -/
def Answer : (c : Cmd key) → c.Res → Prop
  | .stmt (.select p _), .ok rows => (∀ a ∈ rows, p a = true) ∧ (rows.map key).Nodup
  | _, _ => True

/-- The rows of a `SELECT` are rows that the transaction sees. -/
theorem rows_of_select {order : List κ} {p : α → Bool} {limit : Option ℤ} {rows : List α}
    (h : db.perform i order (.select p limit) = some (.ok rows, db')) :
    (∀ a ∈ rows, (db.view i).get (key a) = some a ∧ p a = true) ∧ (rows.map key).Nodup := by
  simp only [perform] at h
  split_ifs at h with hperm
  obtain ⟨hrows, -⟩ := Prod.mk.inj (Option.some.inj h)
  have hsub : rows.Sublist (order.filterMap (db.view i).get) := by
    rw [← Except.ok.inj hrows]
    cases limit with
    | none => exact List.Sublist.refl _
    | some n => exact List.take_sublist ..
  -- the keys in `order` are those of the matching rows
  have hfound : ∀ k ∈ order, ∃ a, (db.view i).get k = some a ∧ p a = true := by
    intro k hk
    obtain ⟨a, ha, rfl⟩ := List.mem_map.mp (hperm.mem_iff.mp hk)
    rw [List.mem_filter] at ha
    exact ⟨a, KeyedMap.get_of_mem ha.1, ha.2⟩
  constructor
  · intro a ha
    obtain ⟨k, hk, hget⟩ := List.mem_filterMap.mp (hsub.subset ha)
    obtain ⟨b, hb, hp⟩ := hfound k hk
    cases hget.symm.trans hb
    exact ⟨by rw [KeyedMap.keyed hget, hget], hp⟩
  · have hkeys : (order.filterMap (db.view i).get).map key = order := by
      apply KeyedMap.map_key_filterMap_get
      intro k hk hnone
      obtain ⟨a, ha, -⟩ := hfound k hk
      cases hnone.symm.trans ha
    have horder : order.Nodup :=
      hperm.nodup_iff.mpr ((db.view i).nodup.sublist (List.filter_sublist.map _))
    exact (hkeys.symm ▸ horder : ((order.filterMap (db.view i).get).map key).Nodup).sublist
      (hsub.map _)

theorem perform_of_ok {s : Stmt key} {r : s.Res} (h : db.exec i x (.stmt s) = some (.ok r, db')) :
    perform i x.order s { db with clock := x.clock } = some (.ok r, db') := by
  have hfaulty : ∀ {db : Database ι key}, db.performFaulty i x s = some (.ok r, db') →
      db.perform i x.order s = some (.ok r, db') := by
    intro db hf
    unfold performFaulty at hf
    split at hf
    · exact hf
    · cases hf
    · obtain ⟨⟨r', db''⟩, -, he⟩ := Option.map_eq_some_iff.mp hf
      cases he
  unfold exec at h
  split_ifs at h
  cases s with
  | rollback => exact h
  | _ => exact hfaulty h

theorem answer_of_exec {r : c.Res} (h : db.exec i x c = some (r, db')) : Answer c r := by
  cases c with
  | now => trivial
  | stmt s =>
    cases r with
    | error e => cases s <;> trivial
    | ok r =>
      cases s with
      | select p limit =>
        obtain ⟨hrows, hnodup⟩ := rows_of_select (perform_of_ok h)
        exact ⟨fun a ha => (hrows a ha).2, hnodup⟩
      | _ => trivial

theorem drafts_of_insert {a : α} (h : db.exec i x (.stmt (.insert a)) = some (.ok (), db')) :
    db'.drafts i = db.drafts i ++ [Change.put a] := by
  have hp := perform_of_ok h
  simp only [perform] at hp
  split_ifs at hp
  split at hp
  · cases hp
    simp [drafts_change]
  · cases hp

/-- A commit that is answered has made everything visible. -/
theorem eq_of_commit (h : db.exec i x (.stmt .commit) = some (.ok (), db')) :
    db'.rows = db.view i ∧ db'.drafts i = [] := by
  have hp := perform_of_ok h
  cases hp
  exact ⟨rfl, by simp [drafts_commit]⟩

theorem drafts_of_rollback {r : Except PyException Unit}
    (h : db.exec i x (.stmt .rollback) = some (r, db')) : db'.drafts i = [] := by
  unfold exec at h
  split_ifs at h
  cases h
  simp [drafts_rollback]

/-- A row that a `DELETE` sees is deleted. -/
theorem drafts_of_delete {n : ℕ} (h : db.exec i x (.stmt (.delete k)) = some (.ok n, db'))
    (hrow : (db.view i).get k ≠ none) (hstored : db.rows.get k ≠ none) :
    db'.drafts i = db.drafts i ++ [Change.erase k] := by
  have hp := perform_of_ok h
  simp only [perform] at hp
  split_ifs at hp with hlock hsome
  · exact absurd (Option.ne_none_iff_isSome.mp hstored) hsome
  · obtain ⟨a, ha⟩ := Option.ne_none_iff_exists'.mp hrow
    have hview : (view { db with clock := x.clock } i).get k = some a := ha
    rw [hview] at hp
    cases hp
    simp [drafts_change]

end Database

end Sql

end Varco
