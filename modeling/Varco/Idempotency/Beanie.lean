import Mathlib.Data.Int.Order.Basic
import Varco.Foundations.Collection
import Varco.Foundations.Run
import Varco.Idempotency.Base

/-!
# The MongoDB idempotency store

`BeanieIdempotencyStore` of `varco_beanie.idempotency`: each call as the MongoDB commands that it
sends, in any interleaving of any number of clients, with a clock that does not go back. The key has
a unique index, and a datetime is stored in whole milliseconds.

A document that has expired is taken over by find, delete and insert. The delete goes by the `_id`
of the document that was found, and no other document has it, then or later; so it cannot remove a
reservation that has not expired (`Invariant.deleting`). A reservation stands until its holder
releases it or it has expired, and `reserve_exclusive` follows.
-/

namespace Varco

open List

namespace BeanieIdempotencyStore

/-! ## Documents -/

/-- `IdempotencyDocument.state` -/
inductive DocumentState
  | reserved
  | completed
  deriving DecidableEq

structure IdempotencyDocument where
  id : ℕ
  key : String
  fingerprint : String
  state : DocumentState
  status : Option ℤ := none
  body : Option Bytes := none
  headers : List (String × String) := []
  createdAt : Instant
  expiresAt : Instant
  deriving DecidableEq

def stored (t : Instant) : Instant := t / 1000 * 1000

/-- A call of `reserve`, with its reading of the clock. -/
structure Reservation where
  key : String
  fingerprint : String
  ttl : PyFloat
  now : Instant
  deriving DecidableEq

/-- `now + timedelta(seconds=ttl)` -/
def Reservation.expiresAt (r : Reservation) : Instant := r.now + r.ttl.timedelta

/-- What `_try_insert` stores. -/
def Reservation.document (r : Reservation) (id : ℕ) : IdempotencyDocument where
  id := id
  key := r.key
  fingerprint := r.fingerprint
  state := .reserved
  createdAt := stored r.now
  expiresAt := stored r.expiresAt

/-- What `complete` sets. -/
def IdempotencyDocument.completedBy (doc : IdempotencyDocument) (record : IdempotencyRecord) :
    IdempotencyDocument :=
  { doc with
    state := .completed
    fingerprint := record.fingerprint
    status := some record.status
    body := some record.body
    headers := record.headers }

/-- What `get` returns. -/
def IdempotencyDocument.record (doc : IdempotencyDocument) : IdempotencyRecord where
  status := doc.status.getD 0
  body := doc.body.getD []
  headers := doc.headers
  fingerprint := doc.fingerprint
  createdAt := doc.createdAt

/-! ## Clients -/

/-- Where a client is in its call, before its next command. -/
inductive Client
  | idle
  /-- `reserve`, before its first insert, its `find_one`, its `delete` and its last insert. -/
  | inserting (r : Reservation)
  | finding (r : Reservation)
  | deleting (r : Reservation) (doc : IdempotencyDocument)
  | retrying (r : Reservation)
  /-- `complete`, before its `find_one` and its `save`. -/
  | completing (key : String) (record : IdempotencyRecord)
  | saving (doc : IdempotencyDocument)
  /-- `get`, before its `find_one` and its reading of the clock. -/
  | getting (key : String)
  | reading (doc : IdempotencyDocument)
  /-- `release`, before its `find_one` and its `delete`. -/
  | releasing (key : String)
  | removing (doc : IdempotencyDocument)
  /-- `delete_expired`, with its reading of the clock. -/
  | sweeping (now : Instant)
  deriving DecidableEq

/-- What has happened, with the time: a call has returned, or `release` or `delete_expired` has
deleted documents. A call of `reserve` returns with the document that it has stored, or found. -/
inductive Event (C : Type)
  | reserved (c : C) (r : Reservation) (outcome : ReserveOutcome)
      (doc : Option IdempotencyDocument) (time : Instant)
  | refused (c : C) (e : PyException)
  | completed (c : C) (result : Except PyException Unit)
  | got (c : C) (record : Option IdempotencyRecord)
  | released (c : C) (doc : Option IdempotencyDocument) (time : Instant)
  | swept (c : C) (docs : List IdempotencyDocument) (time : Instant)
  deriving DecidableEq

/-- The collection, the clients, and what has happened. -/
structure State (C : Type) where
  clock : Instant := 0
  docs : Collection IdempotencyDocument.id IdempotencyDocument.key := .empty
  nextId : ℕ := 0
  clients : C → Client := fun _ => .idle
  log : List (Event C) := []

/-- What happens next: a client makes a call, or its call goes on with its next command. -/
inductive Move (C : Type)
  | call (c : C) (now : Instant) (x : IdempotencyCall)
  | deleteExpired (c : C) (now : Instant)
  | goOn (c : C) (now : Instant)

def Move.now {C : Type} : Move C → Instant
  | .call _ now _ => now
  | .deleteExpired _ now => now
  | .goOn _ now => now

def duplicateKeyError : PyException :=
  ⟨"DuplicateKeyError", "E11000 duplicate key error collection: varco_idempotency index: key_1"⟩

section

variable {C : Type} [DecidableEq C]

def State.goto (t : State C) (c : C) (client : Client) : State C :=
  { t with clients := Function.update t.clients c client }

def State.finish (t : State C) (c : C) (e : Event C) : State C :=
  { t.goto c .idle with log := t.log ++ [e] }

/-- `_try_insert`, which returns `ACQUIRED` if it has inserted, and goes on with `lost` if not. -/
def State.tryInsert (t : State C) (c : C) (r : Reservation) (lost : State C) : State C :=
  match t.docs.insert (r.document t.nextId) with
  | some docs => { t with docs := docs, nextId := t.nextId + 1 }.finish c
      (.reserved c r .acquired (some (r.document t.nextId)) t.clock)
  | none => lost

def State.command (t : State C) (c : C) : Option (State C) :=
  match t.clients c with
  | .idle => none
  | .inserting r => some (t.tryInsert c r (t.goto c (.finding r)))
  | .finding r =>
    match t.docs.findOne r.key with
    -- deleted since the insert, which is tried once more
    | none => some (t.goto c (.retrying r))
    | some doc =>
      if doc.expiresAt ≤ r.now then some (t.goto c (.deleting r doc))
      else
        match doc.state with
        | .completed => some (t.finish c (.reserved c r .replay (some doc) t.clock))
        | .reserved => some (t.finish c (.reserved c r .inFlight (some doc) t.clock))
  | .deleting r doc => some ({ t with docs := t.docs.delete doc.id }.goto c (.retrying r))
  | .retrying r =>
    some (t.tryInsert c r
      (t.finish c (.reserved c r .inFlight (t.docs.findOne r.key) t.clock)))
  | .completing key record =>
    match t.docs.findOne key with
    | none => some (t.finish c (.completed c (.ok ())))
    | some doc => some (t.goto c (.saving (doc.completedBy record)))
  | .saving doc =>
    match t.docs.save doc with
    | none => some (t.finish c (.completed c (.error duplicateKeyError)))
    | some docs => some ({ t with docs := docs }.finish c (.completed c (.ok ())))
  | .getting key =>
    match t.docs.findOne key with
    | none => some (t.finish c (.got c none))
    | some doc =>
      match doc.state with
      | .reserved => some (t.finish c (.got c none))
      | .completed => some (t.goto c (.reading doc))
  | .reading doc =>
    some (t.finish c (.got c (if doc.expiresAt ≤ t.clock then none else some doc.record)))
  | .releasing key =>
    match t.docs.findOne key with
    | none => some (t.finish c (.released c none t.clock))
    | some doc => some (t.goto c (.removing doc))
  | .removing doc =>
    some ({ t with docs := t.docs.delete doc.id }.finish c (.released c (some doc) t.clock))
  | .sweeping now =>
    some ({ t with docs := t.docs.deleteMany fun doc => doc.expiresAt < stored now }.finish c
      (.swept c (t.docs.docs.filter fun doc => doc.expiresAt < stored now) t.clock))

def State.begin (t : State C) (c : C) : IdempotencyCall → State C
  | .reserve key fingerprint ttl =>
    if ttl.val ≤ 0 then t.finish c (.refused c (ttlError ttl))
    else t.goto c (.inserting ⟨key, fingerprint, ttl, t.clock⟩)
  | .complete key record => t.goto c (.completing key record)
  | .get key => t.goto c (.getting key)
  | .release key => t.goto c (.releasing key)

def State.act (t : State C) : Move C → Option (State C)
  | .call c _ x => if t.clients c = .idle then some (t.begin c x) else none
  | .deleteExpired c _ =>
    if t.clients c = .idle then some (t.goto c (.sweeping t.clock)) else none
  | .goOn c _ => t.command c

def advance (t : State C) (a : Move C) : Option (State C) :=
  if t.clock ≤ a.now then { t with clock := a.now }.act a else none

def Step (t : State C) (a : Move C) (t' : State C) : Prop := advance t a = some t'

/-! ## Reservations -/

/-- The client has acquired a key by this call, and has stored the document with this `_id`. -/
def Acquired (log : List (Event C)) (c : C) (r : Reservation) (id : ℕ) : Prop :=
  ∃ time, Event.reserved c r .acquired (some (r.document id)) time ∈ log

/-- The client has released what it had stored with this `_id`. -/
def Released (log : List (Event C)) (c : C) (id : ℕ) : Prop :=
  ∃ doc time, Event.released c (some doc) time ∈ log ∧ doc.id = id

/-- The client holds the key: it has acquired it, and not released it, and it has not expired. -/
def Holds (log : List (Event C)) (c : C) (key : String) (now : Instant) : Prop :=
  ∃ r id, Acquired log c r id ∧ r.key = key ∧ now < stored r.expiresAt ∧ ¬Released log c id

/-- A key is released by its holder, before it expires. For `complete`, nothing has to be assumed.
-/
def ReleasedByHolder (_ : List (Move C)) (t : State C) (a : Move C) : Prop :=
  ∀ c now key, a = .goOn c now → t.clients c = .releasing key → Holds t.log c key now

/-- **Reservations are exclusive.** -/
structure Exclusive (log : List (Event C)) : Prop where
  /-- When a key is acquired, whoever has acquired it before has released it, or its reservation has
  expired. -/
  acquired : ∀ past c r id time rest,
    log = past ++ Event.reserved c r .acquired (some (r.document id)) time :: rest →
      ∀ c' r' id', Acquired past c' r' id' → r'.key = r.key →
        Released past c' id' ∨ stored r'.expiresAt ≤ time
  /-- A replay has found a completed document that has not expired. -/
  replay : ∀ c r doc time, .reserved c r .replay doc time ∈ log → ∃ found, doc = some found ∧
    found.key = r.key ∧ found.state = .completed ∧ r.now < found.expiresAt
  /-- A sweep deletes nothing that has not expired. -/
  swept : ∀ c docs time, .swept c docs time ∈ log → ∀ doc ∈ docs, doc.expiresAt < time

def Born (log : List (Event C)) (doc : IdempotencyDocument) : Prop :=
  ∃ c r, Acquired log c r doc.id ∧ doc.key = r.key ∧ doc.expiresAt = stored r.expiresAt

def Client.Checked (log : List (Event C)) (clock : Instant) (c : C) : Client → Prop
  | .inserting r => r.now ≤ clock
  | .finding r => r.now ≤ clock
  | .deleting r doc => Born log doc ∧ doc.expiresAt ≤ r.now ∧ r.now ≤ clock
  | .saving doc => Born log doc
  | .removing doc => ∃ r, Acquired log c r doc.id
  | .sweeping now => now ≤ clock
  | _ => True

/-- What holds throughout. -/
structure Invariant (t : State C) : Prop where
  fresh : ∀ c r id, Acquired t.log c r id → id < t.nextId
  unique : ∀ c r c' r' id, Acquired t.log c r id → Acquired t.log c' r' id → c = c' ∧ r = r'
  born : ∀ doc ∈ t.docs.docs, Born t.log doc
  checked : ∀ c, (t.clients c).Checked t.log t.clock c
  /-- What was acquired is stored, until it is released or has expired. -/
  stands : ∀ c r id, Acquired t.log c r id → ¬Released t.log c id →
    t.clock < stored r.expiresAt → ∃ doc ∈ t.docs.docs, doc.id = id
  exclusive : Exclusive t.log

variable {t t' : State C} {a : Move C} {c : C} {client : Client} {r : Reservation}
  {doc : IdempotencyDocument} {log log' : List (Event C)} {now clock : Instant} {id : ℕ}
  {e : Event C}

omit [DecidableEq C] in
theorem Acquired.append (h : Acquired log c r id) : Acquired (log ++ log') c r id := by
  obtain ⟨time, h⟩ := h
  exact ⟨time, mem_append_left _ h⟩

omit [DecidableEq C] in
theorem Released.append (h : Released log c id) : Released (log ++ log') c id := by
  obtain ⟨doc, time, h, hid⟩ := h
  exact ⟨doc, time, mem_append_left _ h, hid⟩

omit [DecidableEq C] in
theorem Born.append (h : Born log doc) : Born (log ++ log') doc := by
  obtain ⟨c, r, hacquired, hdoc⟩ := h
  exact ⟨c, r, hacquired.append, hdoc⟩

omit [DecidableEq C] in
theorem Client.Checked.later (h : client.Checked log clock c) (hle : clock ≤ now) :
    client.Checked (log ++ log') now c := by
  cases client with
  | inserting => exact le_trans h hle
  | finding => exact le_trans h hle
  | deleting => exact ⟨h.1.append, h.2.1, h.2.2.trans hle⟩
  | saving => exact h.append
  | removing =>
    obtain ⟨r, h⟩ := h
    exact ⟨r, h.append⟩
  | sweeping => exact le_trans h hle
  | _ => trivial

omit [DecidableEq C] in
theorem Invariant.owner (h : Invariant t) (hdoc : doc ∈ t.docs.docs)
    (hacquired : Acquired t.log c r doc.id) :
    doc.key = r.key ∧ doc.expiresAt = stored r.expiresAt := by
  obtain ⟨c', r', hacquired', hkey, hexpires⟩ := h.born doc hdoc
  obtain ⟨-, rfl⟩ := h.unique _ _ _ _ _ hacquired hacquired'
  exact ⟨hkey, hexpires⟩

omit [DecidableEq C] in
theorem Invariant.later (h : Invariant t) (hle : t.clock ≤ now) :
    Invariant { t with clock := now } where
  fresh := h.fresh
  unique := h.unique
  born := h.born
  checked c := by
    have hchecked : (t.clients c).Checked (t.log ++ []) now c := (h.checked c).later hle
    rwa [append_nil] at hchecked
  stands c r id hacquired hreleased hclock :=
    h.stands c r id hacquired hreleased (hle.trans_lt hclock)
  exclusive := h.exclusive

theorem Invariant.goto (h : Invariant t) (hclient : client.Checked t.log t.clock c) :
    Invariant (t.goto c client) where
  fresh := h.fresh
  unique := h.unique
  born := h.born
  checked c' := by
    change (Function.update t.clients c client c').Checked _ _ _
    by_cases hc : c' = c
    · rwa [hc, Function.update_self]
    · rw [Function.update_of_ne hc]
      exact h.checked c'
  stands := h.stands
  exclusive := h.exclusive

/-! ## Returns -/

omit [DecidableEq C] in
theorem acquired_snoc (h : Acquired (log ++ [e]) c r id) : Acquired log c r id ∨
    ∃ time, e = .reserved c r .acquired (some (r.document id)) time := by
  obtain ⟨time, h⟩ := h
  rcases mem_append.mp h with h | h
  · exact Or.inl ⟨time, h⟩
  · exact Or.inr ⟨time, (mem_singleton.mp h).symm⟩

omit [DecidableEq C] in
theorem Exclusive.snoc (h : Exclusive log)
    (hacquired : ∀ c r id time, e = .reserved c r .acquired (some (r.document id)) time →
      ∀ c' r' id', Acquired log c' r' id' → r'.key = r.key →
        Released log c' id' ∨ stored r'.expiresAt ≤ time)
    (hreplay : ∀ c r doc time, e = .reserved c r .replay doc time → ∃ found, doc = some found ∧
      found.key = r.key ∧ found.state = .completed ∧ r.now < found.expiresAt)
    (hswept : ∀ c docs time, e = .swept c docs time → ∀ doc ∈ docs, doc.expiresAt < time) :
    Exclusive (log ++ [e]) where
  acquired past c r id time rest hlog := by
    rcases eq_nil_or_concat rest with rfl | ⟨rest, last, rfl⟩
    · obtain ⟨rfl, he⟩ := append_inj' hlog rfl
      exact hacquired c r id time (singleton_inj.mp he)
    · rw [concat_eq_append, ← cons_append, ← append_assoc] at hlog
      obtain ⟨rfl, -⟩ := append_inj' hlog rfl
      exact h.acquired past c r id time rest rfl
  replay c r doc time hmem := by
    rcases mem_append.mp hmem with hmem | hmem
    · exact h.replay c r doc time hmem
    · exact hreplay c r doc time (mem_singleton.mp hmem).symm
  swept c docs time hmem := by
    rcases mem_append.mp hmem with hmem | hmem
    · exact h.swept c docs time hmem
    · exact hswept c docs time (mem_singleton.mp hmem).symm

theorem Invariant.finish (h : Invariant t)
    (hacquired : ∀ c r doc time, e ≠ .reserved c r .acquired doc time)
    (hreplay : ∀ c r doc time, e = .reserved c r .replay doc time → ∃ found, doc = some found ∧
      found.key = r.key ∧ found.state = .completed ∧ r.now < found.expiresAt)
    (hswept : ∀ c docs time, e = .swept c docs time → ∀ doc ∈ docs, doc.expiresAt < time) :
    Invariant (t.finish c e) := by
  have hidle : Invariant (t.goto c .idle) := h.goto trivial
  have hold : ∀ {c r id}, Acquired (t.log ++ [e]) c r id → Acquired t.log c r id := by
    intro c r id hnew
    rcases acquired_snoc hnew with hold | ⟨time, he⟩
    · exact hold
    · exact absurd he (hacquired _ _ _ _)
  constructor
  · exact fun c r id hnew => h.fresh c r id (hold hnew)
  · exact fun c r c' r' id hnew hnew' => h.unique c r c' r' id (hold hnew) (hold hnew')
  · exact fun doc hdoc => (h.born doc hdoc).append
  · exact fun c' => (hidle.checked c').later le_rfl
  · exact fun c r id hnew hreleased =>
      h.stands c r id (hold hnew) fun hreleased' => hreleased hreleased'.append
  · exact h.exclusive.snoc (fun c r id time he => absurd he (hacquired _ _ _ _)) hreplay hswept

theorem Invariant.return (h : Invariant t)
    (he : ∀ c r outcome doc time, e ≠ .reserved c r outcome doc time := by intros; simp)
    (hswept : ∀ c docs time, e ≠ .swept c docs time := by intros; simp) :
    Invariant (t.finish c e) :=
  h.finish (fun _ _ _ _ => he _ _ _ _ _) (fun _ _ _ _ heq => absurd heq (he _ _ _ _ _))
    fun _ _ _ heq => absurd heq (hswept _ _ _)

theorem Invariant.inFlight (h : Invariant t) {doc : Option IdempotencyDocument} :
    Invariant (t.finish c (.reserved c r .inFlight doc t.clock)) :=
  h.finish (fun _ _ _ _ he => nomatch he) (fun _ _ _ _ he => nomatch he) fun _ _ _ he => nomatch he

omit [DecidableEq C] in
/-- Documents are deleted that were released, or have expired. -/
theorem Invariant.deleteMany {p : IdempotencyDocument → Bool} (h : Invariant t)
    (hp : ∀ doc ∈ t.docs.docs, p doc = true → ∀ c r, Acquired t.log c r doc.id →
      Released t.log c doc.id ∨ stored r.expiresAt ≤ t.clock) :
    Invariant { t with docs := t.docs.deleteMany p } where
  fresh := h.fresh
  unique := h.unique
  born doc hdoc := h.born doc (Collection.mem_deleteMany.mp hdoc).1
  checked := h.checked
  stands c r id hacquired hreleased hclock := by
    obtain ⟨doc, hdoc, rfl⟩ := h.stands c r id hacquired hreleased hclock
    refine ⟨doc, Collection.mem_deleteMany.mpr ⟨hdoc, ?_⟩, rfl⟩
    by_contra hdeleted
    rcases hp doc hdoc ((Bool.not_eq_false _).mp hdeleted) c r hacquired with hrel | hexp
    · exact hreleased hrel
    · exact absurd hclock (not_lt.mpr hexp)
  exclusive := h.exclusive

/-- **An insert acquires the key.** -/
theorem Invariant.insert {docs : Collection IdempotencyDocument.id IdempotencyDocument.key}
    (h : Invariant t) (hinsert : t.docs.insert (r.document t.nextId) = some docs) :
    Invariant ({ t with docs := docs, nextId := t.nextId + 1 }.finish c
      (.reserved c r .acquired (some (r.document t.nextId)) t.clock)) := by
  obtain ⟨hdocs, -, hkeys⟩ := Collection.insert_eq_some hinsert
  have hidle : Invariant (t.goto c .idle) := h.goto trivial
  have hcases : ∀ {c' r' id}, Acquired (t.log ++ [Event.reserved c r .acquired
      (some (r.document t.nextId)) t.clock]) c' r' id →
        Acquired t.log c' r' id ∨ c' = c ∧ r' = r ∧ id = t.nextId := by
    intro c' r' id hnew
    rcases acquired_snoc hnew with hold | ⟨time, he⟩
    · exact Or.inl hold
    · injection he with hc hr _ hdoc
      subst hc hr
      exact Or.inr ⟨rfl, rfl, (congrArg IdempotencyDocument.id (Option.some.inj hdoc)).symm⟩
  have hself : Acquired (t.log ++ [Event.reserved c r .acquired (some (r.document t.nextId))
      t.clock]) c r t.nextId := ⟨t.clock, by simp⟩
  constructor
  · intro c' r' id hnew
    rcases hcases hnew with hold | ⟨-, -, rfl⟩
    · exact (h.fresh c' r' id hold).trans (Nat.lt_succ_self _)
    · exact Nat.lt_succ_self _
  · intro c₁ r₁ c₂ r₂ id h₁ h₂
    rcases hcases h₁ with hold₁ | ⟨rfl, rfl, rfl⟩
    · rcases hcases h₂ with hold₂ | ⟨rfl, rfl, rfl⟩
      · exact h.unique _ _ _ _ _ hold₁ hold₂
      · exact absurd (h.fresh _ _ _ hold₁) (lt_irrefl _)
    · rcases hcases h₂ with hold₂ | ⟨rfl, rfl, -⟩
      · exact absurd (h.fresh _ _ _ hold₂) (lt_irrefl _)
      · exact ⟨rfl, rfl⟩
  · intro doc hdoc
    rcases (Collection.mem_insert hinsert).mp hdoc with rfl | hdoc
    · exact ⟨c, r, hself, rfl, rfl⟩
    · exact (h.born doc hdoc).append
  · exact fun c' => (hidle.checked c').later le_rfl
  · intro c' r' id hnew hreleased hclock
    rcases hcases hnew with hold | ⟨-, -, rfl⟩
    · obtain ⟨doc, hdoc, hid⟩ :=
        h.stands c' r' id hold (fun hreleased' => hreleased hreleased'.append) hclock
      exact ⟨doc, (Collection.mem_insert hinsert).mpr (Or.inr hdoc), hid⟩
    · exact ⟨_, (Collection.mem_insert hinsert).mpr (Or.inl rfl), rfl⟩
  · refine h.exclusive.snoc ?_ (fun _ _ _ _ he => nomatch he) fun _ _ _ he => nomatch he
    intro c₁ r₁ id time he c' r' id' hacquired hkey
    injection he with _ hr _ _ htime
    subst hr htime
    -- no document has the key, so whoever had acquired it has no document any more
    by_contra hneither
    rw [not_or, not_le] at hneither
    obtain ⟨doc, hdoc, rfl⟩ := h.stands c' r' id' hacquired hneither.1 hneither.2
    exact hkeys doc hdoc ((h.owner hdoc hacquired).1.trans hkey)

theorem Invariant.tryInsert {lost : State C} (h : Invariant t) (hlost : Invariant lost) :
    Invariant (t.tryInsert c r lost) := by
  unfold State.tryInsert
  cases hinsert : t.docs.insert (r.document t.nextId) with
  | none => exact hlost
  | some docs => exact h.insert hinsert

omit [DecidableEq C] in
theorem Invariant.save {docs : Collection IdempotencyDocument.id IdempotencyDocument.key}
    (h : Invariant t) (hborn : Born t.log doc) (hsave : t.docs.save doc = some docs) :
    Invariant { t with docs := docs } where
  fresh := h.fresh
  unique := h.unique
  born doc' hdoc := by
    rcases (Collection.mem_save hsave).mp hdoc with rfl | ⟨hdoc, -⟩
    · exact hborn
    · exact h.born doc' hdoc
  checked := h.checked
  stands c r id hacquired hreleased hclock := by
    obtain ⟨doc', hdoc, hid⟩ := h.stands c r id hacquired hreleased hclock
    by_cases hsame : doc'.id = doc.id
    · exact ⟨doc, (Collection.mem_save hsave).mpr (Or.inl rfl), hsame.symm.trans hid⟩
    · exact ⟨doc', (Collection.mem_save hsave).mpr (Or.inr ⟨hdoc, hsame⟩), hid⟩
  exclusive := h.exclusive

/-- **Every command keeps the invariant**, if a release is its holder's. -/
theorem Invariant.command (h : Invariant t)
    (hholds : ∀ key, t.clients c = .releasing key → Holds t.log c key t.clock)
    (hcommand : t.command c = some t') : Invariant t' := by
  have hchecked := h.checked c
  unfold State.command at hcommand
  cases hclient : t.clients c with
  | idle =>
    rw [hclient] at hcommand
    cases hcommand
  | inserting r =>
    rw [hclient] at hcommand hchecked
    cases hcommand
    exact h.tryInsert (h.goto hchecked)
  | finding r =>
    rw [hclient] at hcommand hchecked
    cases hfound : t.docs.findOne r.key with
    | none =>
      simp only [hfound] at hcommand
      cases hcommand
      exact h.goto trivial
    | some doc =>
      obtain ⟨hdoc, hkey⟩ := Collection.of_findOne hfound
      simp only [hfound] at hcommand
      split_ifs at hcommand with hexpired
      · cases hcommand
        exact h.goto ⟨h.born doc hdoc, hexpired, hchecked⟩
      · cases hstate : doc.state with
        | reserved =>
          simp only [hstate] at hcommand
          cases hcommand
          exact h.inFlight
        | completed =>
          simp only [hstate] at hcommand
          cases hcommand
          refine h.finish (fun _ _ _ _ he => nomatch he) ?_ fun _ _ _ he => nomatch he
          intro c' r' found time he
          cases he
          exact ⟨doc, rfl, hkey, hstate, not_le.mp hexpired⟩
  | deleting r doc =>
    rw [hclient] at hcommand hchecked
    cases hcommand
    obtain ⟨⟨c₀, r₀, hacquired, -, hexpires⟩, hexpired, hnow⟩ := hchecked
    -- whoever had acquired the document that was found has it no longer
    refine Invariant.goto (h.deleteMany ?_) trivial
    intro doc' _ hid c' r' hacquired'
    rw [of_decide_eq_true hid] at hacquired'
    obtain ⟨-, rfl⟩ := h.unique _ _ _ _ _ hacquired hacquired'
    exact Or.inr (hexpires ▸ hexpired.trans hnow)
  | retrying r =>
    rw [hclient] at hcommand
    cases hcommand
    exact h.tryInsert h.inFlight
  | completing key record =>
    rw [hclient] at hcommand
    cases hfound : t.docs.findOne key with
    | none =>
      simp only [hfound] at hcommand
      cases hcommand
      exact h.return
    | some doc =>
      simp only [hfound] at hcommand
      cases hcommand
      exact h.goto (h.born doc (Collection.of_findOne hfound).1)
  | saving doc =>
    rw [hclient] at hcommand hchecked
    cases hsave : t.docs.save doc with
    | none =>
      simp only [hsave] at hcommand
      cases hcommand
      exact h.return
    | some docs =>
      simp only [hsave] at hcommand
      cases hcommand
      exact (h.save hchecked hsave).return
  | getting key =>
    rw [hclient] at hcommand
    cases hfound : t.docs.findOne key with
    | none =>
      simp only [hfound] at hcommand
      cases hcommand
      exact h.return
    | some doc =>
      cases hstate : doc.state with
      | reserved =>
        simp only [hfound, hstate] at hcommand
        cases hcommand
        exact h.return
      | completed =>
        simp only [hfound, hstate] at hcommand
        cases hcommand
        exact h.goto trivial
  | reading doc =>
    rw [hclient] at hcommand
    cases hcommand
    exact h.return
  | releasing key =>
    rw [hclient] at hcommand
    cases hfound : t.docs.findOne key with
    | none =>
      simp only [hfound] at hcommand
      cases hcommand
      exact h.return
    | some doc =>
      simp only [hfound] at hcommand
      cases hcommand
      obtain ⟨hdoc, hkey⟩ := Collection.of_findOne hfound
      -- the document of the key is the holder's
      obtain ⟨r, id, hacquired, hrkey, hclock, hreleased⟩ := hholds key hclient
      obtain ⟨own, hown, rfl⟩ := h.stands c r id hacquired hreleased hclock
      have hownKey : own.key = r.key := (h.owner hown hacquired).1
      have hsame : own = doc :=
        t.docs.eq_of_key hown hdoc (hownKey.trans (hrkey.trans hkey.symm))
      exact h.goto ⟨r, hsame ▸ hacquired⟩
  | removing doc =>
    rw [hclient] at hcommand hchecked
    cases hcommand
    obtain ⟨r, hacquired⟩ := hchecked
    have hreturn : Invariant (t.finish c (.released c (some doc) t.clock)) :=
      h.return
    refine hreturn.deleteMany ?_
    intro doc' _ hid c' r' hacquired'
    rw [of_decide_eq_true hid] at hacquired' ⊢
    obtain ⟨rfl, -⟩ := hreturn.unique _ _ _ _ _ hacquired.append hacquired'
    exact Or.inl ⟨doc, t.clock, mem_append_right _ mem_cons_self, rfl⟩
  | sweeping now =>
    rw [hclient] at hcommand hchecked
    cases hcommand
    have hexpired : ∀ doc : IdempotencyDocument, doc.expiresAt < stored now →
        doc.expiresAt < t.clock := fun doc hdoc => by
      have hstored : stored now ≤ now := Int.ediv_mul_le now (by decide)
      exact hdoc.trans_le (hstored.trans hchecked)
    refine Invariant.finish (h.deleteMany ?_) (fun _ _ _ _ he => nomatch he)
      (fun _ _ _ _ he => nomatch he) ?_
    · intro doc hdoc hp c' r' hacquired
      rw [← (h.owner hdoc hacquired).2]
      exact Or.inr (hexpired doc (of_decide_eq_true hp)).le
    · intro c' docs time he doc hdoc
      cases he
      exact hexpired doc (of_decide_eq_true (mem_filter.mp hdoc).2)

/-- **Every step keeps the invariant.** -/
theorem Invariant.step {past : List (Move C)} (h : Invariant t) (hok : ReleasedByHolder past t a)
    (hstep : Step t a t') : Invariant t' := by
  unfold Step advance at hstep
  split_ifs at hstep with hclock
  have hlater : Invariant { t with clock := a.now } := h.later hclock
  cases a with
  | call c now x =>
    simp only [State.act] at hstep
    split_ifs at hstep
    cases hstep
    cases x with
    | reserve key fingerprint ttl =>
      simp only [State.begin]
      split_ifs
      · exact hlater.return
      · exact hlater.goto (le_refl _)
    | complete | get | release => exact hlater.goto trivial
  | deleteExpired c now =>
    simp only [State.act] at hstep
    split_ifs at hstep
    cases hstep
    exact hlater.goto (le_refl _)
  | goOn c now => exact hlater.command (fun key hclient => hok c now key rfl hclient) hstep

omit [DecidableEq C] in
theorem invariant_init : Invariant ({} : State C) where
  fresh c r id h := absurd h fun ⟨_, hmem⟩ => not_mem_nil hmem
  unique c r c' r' id h := absurd h fun ⟨_, hmem⟩ => not_mem_nil hmem
  born doc hdoc := absurd hdoc not_mem_nil
  checked _ := trivial
  stands c r id h := absurd h fun ⟨_, hmem⟩ => not_mem_nil hmem
  exclusive :=
    { acquired := fun past c r id time rest hlog => absurd hlog (by simp)
      replay := fun _ _ _ _ hmem => absurd hmem not_mem_nil
      swept := fun _ _ _ hmem => absurd hmem not_mem_nil }

variable {moves : List (Move C)}

/-- **Idempotency reservations are exclusive**, whatever the clients do, if keys are released by
their holders only. -/
theorem reservation_exclusive (h : Guarded Step ReleasedByHolder ({} : State C) moves t) :
    Exclusive t.log :=
  (h.invariant (I := fun _ t => Invariant t) invariant_init
    fun _ _ _ _ _ hok hstep ht => ht.step hok hstep).exclusive

end

/-! ## Two clients -/

def tenSeconds : PyFloat := ⟨10, "10.0"⟩

/-- A reservation of `order-42`, at a reading of the clock. -/
def order (now : Instant) : Reservation := ⟨"order-42", "f", tenSeconds, now⟩

def reserveOrder (c : Bool) (now : Instant) : Move Bool :=
  .call c now (.reserve "order-42" "f" tenSeconds)

def notReleasing (t : State Bool) : Move Bool → Bool
  | .goOn c _ => match t.clients c with
    | .releasing _ => false
    | _ => true
  | _ => true

theorem releasedByHolder_of_notReleasing (past : List (Move Bool)) (t : State Bool) (a : Move Bool)
    (h : notReleasing t a = true) : ReleasedByHolder past t a := by
  rintro c now key rfl hclient
  simp [notReleasing, hclient] at h

/-- The first client releases the key, and the second acquires it within the time to live. -/
theorem reservation_exclusive_released : ∃ (moves : List (Move Bool)) (t : State Bool),
    Guarded Step ReleasedByHolder {} moves t ∧ Exclusive t.log ∧
      t.log = [.reserved false (order 0) .acquired (some ((order 0).document 0)) 1,
        .released false (some ((order 0).document 0)) 4,
        .reserved true (order 5) .acquired (some ((order 5).document 1)) 6] := by
  -- up to the first command of the release, that command, and the rest
  have h₁ : ([reserveOrder false 0, .goOn false 1, .call false 2 (.release "order-42")].foldlM
      (fun t a => if notReleasing t a then advance t a else none) ({} : State Bool)).isSome := by
    decide +kernel
  have hguard₁ : Guarded Step ReleasedByHolder ({} : State Bool) _ (Option.get _ h₁) :=
    Guarded.nil.foldlM (fun _ _ _ h => h) releasedByHolder_of_notReleasing (Option.some_get h₁).symm
  have h₂ : (advance (Option.get _ h₁) (.goOn false 3)).isSome := by rfl
  have hlog : (Option.get _ h₁).log =
      [.reserved false (order 0) .acquired (some ((order 0).document 0)) 1] := by rfl
  have hclient : (Option.get _ h₁).clients false = .releasing "order-42" := by rfl
  have hok : ∀ past, ReleasedByHolder past (Option.get _ h₁) (.goOn false 3) := by
    intro past c now key hmove hreleasing
    cases hmove
    cases hclient.symm.trans hreleasing
    rw [hlog]
    refine ⟨order 0, 0, ⟨1, mem_cons_self⟩, rfl, by decide, ?_⟩
    rintro ⟨doc, time, hmem, -⟩
    simp at hmem
  have hguard₂ := hguard₁.snoc (hok _) (Option.some_get h₂).symm
  have h₃ : ([.goOn false 4, reserveOrder true 5, .goOn true 6].foldlM
      (fun t a => if notReleasing t a then advance t a else none) (Option.get _ h₂)).isSome := by
    rfl
  have hguard₃ : Guarded Step ReleasedByHolder ({} : State Bool) _ (Option.get _ h₃) :=
    hguard₂.foldlM (fun _ _ _ h => h) releasedByHolder_of_notReleasing (Option.some_get h₃).symm
  exact ⟨_, _, hguard₃, reservation_exclusive hguard₃, by rfl⟩

/-- **A key is acquired within `ttl` after another reserve has returned**, or even after it has read
the clock, as the expiry is stored in whole milliseconds. -/
theorem acquired_early :
    (∃ (moves : List (Move Bool)) (t : State Bool) (doc doc' : IdempotencyDocument),
      Guarded Step ReleasedByHolder {} moves t ∧
      t.log = [.reserved false (order 0) .acquired (some doc) 5000000,
        .reserved true (order 11000000) .acquired (some doc') 12000000] ∧
      (12000000 : Instant) < 5000000 + (order 0).ttl.timedelta) ∧
    ∃ (moves : List (Move Bool)) (t : State Bool) (doc doc' : IdempotencyDocument),
      Guarded Step ReleasedByHolder {} moves t ∧
      t.log = [.reserved false (order 500) .acquired (some doc) 500,
        .reserved true (order 10000200) .acquired (some doc') 10000200] ∧
      (10000200 : Instant) < 500 + (order 500).ttl.timedelta := by
  have hlate : ([reserveOrder false 0, .goOn false 5000000, reserveOrder true 11000000,
      .goOn true 11000000, .goOn true 11000000, .goOn true 11000000, .goOn true 12000000].foldlM
        (fun t a => if notReleasing t a then advance t a else none) ({} : State Bool)).isSome := by
    decide +kernel
  have hearly : ([reserveOrder false 500, .goOn false 500, reserveOrder true 10000200,
      .goOn true 10000200, .goOn true 10000200, .goOn true 10000200, .goOn true 10000200].foldlM
        (fun t a => if notReleasing t a then advance t a else none) ({} : State Bool)).isSome := by
    decide +kernel
  have hguard : Guarded Step ReleasedByHolder ({} : State Bool) _ (Option.get _ hlate) :=
    Guarded.nil.foldlM (fun _ _ _ h => h) releasedByHolder_of_notReleasing
      (Option.some_get hlate).symm
  have hguard' : Guarded Step ReleasedByHolder ({} : State Bool) _ (Option.get _ hearly) :=
    Guarded.nil.foldlM (fun _ _ _ h => h) releasedByHolder_of_notReleasing
      (Option.some_get hearly).symm
  exact ⟨⟨_, _, (order 0).document 0, (order 11000000).document 1, hguard, by rfl,
      by decide +kernel⟩,
    ⟨_, _, (order 500).document 0, (order 10000200).document 1, hguard', by rfl,
      by decide +kernel⟩⟩

end BeanieIdempotencyStore

end Varco
