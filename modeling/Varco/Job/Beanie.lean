import Mathlib.Data.Int.Order.Basic
import Varco.Foundations.Run
import Varco.Job.Base

/-!
# The MongoDB job store

`BeanieJobStore` of `varco_beanie.job_store`: `save`, `try_claim`, `renew` and
`reap_expired_leases`, each as the MongoDB commands that it sends, in any interleaving of any number
of clients, any of which may crash between two commands. The store is the collection of the
documents by id; a document has the fields of its job.

Three of the methods write by id alone what an earlier command of theirs has found: the `delete` of
a fenced save, the second update of a leased claim and the update of a reap. Leases are fenced as
long as nobody has changed the document in between, and a save does not bring back an older epoch
(`InTurn`, `document_fencing`). A save that replaces a document deletes it first, so only a job that
is never saved again is never gone (`FirstSave`).
-/

namespace Varco

open List Function

namespace BeanieJobStore

/-! ## The collection and its clients -/

/-- What a call has returned. -/
inductive Result
  | save (result : Except PyException Unit)
  | tryClaim (leaseTtl : Option Duration) (result : Option Job)
  | renew (result : Option Job)
  | reapExpiredLeases (result : List Job)

/-- Where a client is in its call, between two commands. -/
inductive Client
  | idle
  /-- A save before its `delete`, with the epoch it expects and the document it has found. -/
  | deleting (job : Job) (checked : Option (ℤ × Job))
  | inserting (job : Job)
  /-- A leased claim before its second update, with the document that the first one left. -/
  | bumping (leaseTtl : Duration) (updatedDoc : Job)
  /-- A reap with the documents that are left of its query. -/
  | reaping (current : Instant) (docs reaped : List Job)

/-- The collection and the clients, and what has happened: the epochs that were stored of each job,
what the calls have returned, the documents that the deletes of fenced saves found, and those that
the updates of reaps did. -/
structure State (C : Type) where
  docs : UUID → Option Job := fun _ => none
  clients : C → Client := fun _ => .idle
  epochs : UUID → List ℤ := fun _ => []
  results : List Result := []
  replaced : List (ℤ × Option Job) := []
  reaped : List (Instant × Job) := []

/-- What happens next: a client sends the next command of its call, or crashes. -/
inductive Move (C : Type)
  | save (c : C) (job : Job) (expectedEpoch : Option ℤ)
  | delete (c : C)
  | insert (c : C)
  | tryClaim (c : C) (jobId : UUID) (ownerId : Option String) (leaseTtl : Option Duration)
      (now : Instant)
  | bump (c : C)
  | renew (c : C) (jobId : UUID) (ownerId : String) (epoch : ℤ) (leaseTtl : Duration)
      (now : Instant)
  | reap (c : C) (current : Instant) (limit : ℤ) (docs : List Job)
  | reapNext (c : C)
  | crash (c : C)

section

variable {C : Type} [DecidableEq C]

def State.goto (t : State C) (c : C) (client : Client) : State C :=
  { t with clients := update t.clients c client }

def State.return (t : State C) (c : C) (result : Result) : State C :=
  { t.goto c .idle with results := t.results ++ [result] }

def State.store (t : State C) (doc : Job) : State C :=
  { t with
    docs := update t.docs doc.jobId (some doc)
    epochs := update t.epochs doc.jobId (t.epochs doc.jobId ++ [doc.leaseEpoch]) }

/-- The document after the first update of `try_claim`. -/
def claimUpdate (doc : Job) (ownerId : Option String) (leaseTtl : Option Duration) (now : Instant) :
    Job :=
  let running := { doc with status := .running, startedAt := some now }
  match leaseTtl with
  | none => running
  | some ttl => { running with ownerId := ownerId, leaseExpiresAt := some (now + ttl) }

/-- The stored document after the update of a reap that has found `doc`. -/
def reapUpdate (doc stored : Job) : Job :=
  { stored with
    status := .pending
    leaseEpoch := doc.leaseEpoch + 1
    ownerId := none
    leaseExpiresAt := none }

def duplicateKeyError : PyException :=
  ⟨"DuplicateKeyError", "E11000 duplicate key error collection: varco_jobs index: _id_"⟩

/-- The document can be claimed at `now`. -/
def Claimable (doc : Job) (now : Instant) : Prop := doc.status = .pending ∧ doc.due now = true

/-- An answer to `find(...).limit(limit).to_list()` of a reap. -/
structure Found (t : State C) (current : Instant) (limit : ℤ) (docs : List Job) : Prop where
  nodup : (docs.map Job.jobId).Nodup
  stored : ∀ doc ∈ docs, t.docs doc.jobId = some doc
  expired : ∀ doc ∈ docs, doc.leaseExpired current = true
  atMost : limit ≠ 0 → docs.length ≤ limit.natAbs
  complete : ∀ id doc, t.docs id = some doc → doc.leaseExpired current = true → doc ∈ docs ∨
    limit ≠ 0 ∧ docs.length = limit.natAbs

/-- One step. -/
inductive Step (t : State C) : Move C → State C → Prop
  | unfenced {c : C} {job : Job} (hidle : t.clients c = .idle) :
      Step t (.save c job none) (t.goto c (.deleting job none))
  | checked {c : C} {job found : Job} {e : ℤ} (hidle : t.clients c = .idle)
      (hfound : t.docs job.jobId = some found) (hepoch : found.leaseEpoch = e) :
      Step t (.save c job (some e)) (t.goto c (.deleting job (some (e, found))))
  | refused {c : C} {job : Job} {e : ℤ} (hidle : t.clients c = .idle)
      (hfound : ∀ found, t.docs job.jobId = some found → found.leaseEpoch ≠ e) :
      Step t (.save c job (some e)) (t.return c
        (.save (.error (Job.staleLeaseError "doc not found" job e (t.docs job.jobId)))))
  | delete {c : C} {job : Job} {checked : Option (ℤ × Job)}
      (hclient : t.clients c = .deleting job checked) :
      Step t (.delete c)
        { t.goto c (.inserting job) with
          docs := update t.docs job.jobId none
          replaced := t.replaced ++ (checked.map fun x => (x.1, t.docs job.jobId)).toList }
  | insert {c : C} {job : Job} (hclient : t.clients c = .inserting job)
      (hfree : t.docs job.jobId = none) :
      Step t (.insert c) ((t.store job).return c (.save (.ok ())))
  | duplicate {c : C} {job doc : Job} (hclient : t.clients c = .inserting job)
      (hdoc : t.docs job.jobId = some doc) :
      Step t (.insert c) (t.return c (.save (.error duplicateKeyError)))
  | unclaimed {c : C} {id : UUID} {owner : Option String} {ttl : Option Duration} {now : Instant}
      (hidle : t.clients c = .idle) (hdoc : ∀ doc, t.docs id = some doc → ¬Claimable doc now) :
      Step t (.tryClaim c id owner ttl now) (t.return c (.tryClaim ttl none))
  | claimed {c : C} {id : UUID} {owner : Option String} {now : Instant} {doc : Job}
      (hidle : t.clients c = .idle) (hdoc : t.docs id = some doc) (hclaim : Claimable doc now) :
      Step t (.tryClaim c id owner none now) ((t.store (claimUpdate doc owner none now)).return c
        (.tryClaim none (some (claimUpdate doc owner none now))))
  | leased {c : C} {id : UUID} {owner : Option String} {ttl : Duration} {now : Instant} {doc : Job}
      (hidle : t.clients c = .idle) (hdoc : t.docs id = some doc) (hclaim : Claimable doc now) :
      Step t (.tryClaim c id owner (some ttl) now)
        ((t.store (claimUpdate doc owner (some ttl) now)).goto c
          (.bumping ttl (claimUpdate doc owner (some ttl) now)))
  -- the epoch is the one of the first answer plus one, whatever is stored by now
  | bump {c : C} {ttl : Duration} {doc stored : Job} (hclient : t.clients c = .bumping ttl doc)
      (hdoc : t.docs doc.jobId = some stored) :
      Step t (.bump c) ((t.store { stored with leaseEpoch := doc.leaseEpoch + 1 }).return c
        (.tryClaim (some ttl) (some { doc with leaseEpoch := doc.leaseEpoch + 1 })))
  | bumpNothing {c : C} {ttl : Duration} {doc : Job} (hclient : t.clients c = .bumping ttl doc)
      (hdoc : t.docs doc.jobId = none) :
      Step t (.bump c) (t.return c
        (.tryClaim (some ttl) (some { doc with leaseEpoch := doc.leaseEpoch + 1 })))
  | renewed {c : C} {id : UUID} {owner : String} {e : ℤ} {ttl : Duration} {now : Instant}
      {doc : Job} (hidle : t.clients c = .idle) (hdoc : t.docs id = some doc)
      (howner : doc.ownerId = some owner) (hepoch : doc.leaseEpoch = e) :
      Step t (.renew c id owner e ttl now)
        ((t.store (doc.renewed ttl now)).return c (.renew (some (doc.renewed ttl now))))
  | notRenewed {c : C} {id : UUID} {owner : String} {e : ℤ} {ttl : Duration} {now : Instant}
      (hidle : t.clients c = .idle)
      (hdoc : ∀ doc, t.docs id = some doc → doc.ownerId ≠ some owner ∨ doc.leaseEpoch ≠ e) :
      Step t (.renew c id owner e ttl now) (t.return c (.renew none))
  | reap {c : C} {current : Instant} {limit : ℤ} {docs : List Job} (hidle : t.clients c = .idle)
      (hfound : Found t current limit docs) :
      Step t (.reap c current limit docs) (t.goto c (.reaping current docs []))
  | reapOne {c : C} {current : Instant} {doc stored : Job} {docs reaped : List Job}
      (hclient : t.clients c = .reaping current (doc :: docs) reaped)
      (hdoc : t.docs doc.jobId = some stored) :
      Step t (.reapNext c)
        { (t.store (reapUpdate doc stored)).goto c
            (.reaping current docs (reaped ++ [doc.reaped])) with
          reaped := t.reaped ++ [(current, stored)] }
  | reapNothing {c : C} {current : Instant} {doc : Job} {docs reaped : List Job}
      (hclient : t.clients c = .reaping current (doc :: docs) reaped)
      (hdoc : t.docs doc.jobId = none) :
      Step t (.reapNext c) (t.goto c (.reaping current docs (reaped ++ [doc.reaped])))
  | reapEnd {c : C} {current : Instant} {reaped : List Job}
      (hclient : t.clients c = .reaping current [] reaped) :
      Step t (.reapNext c) (t.return c (.reapExpiredLeases reaped))
  | crash {c : C} : Step t (.crash c) (t.goto c .idle)

/-! ## What the store promises -/

def leases (results : List Result) : List (UUID × ℤ) :=
  results.filterMap fun
    | .tryClaim (some _) (some job) => some (job.jobId, job.leaseEpoch)
    | _ => none

/-- **Leases are fenced**: the stored epochs of a job have never decreased, and the last of them is
that of its document; no two leased claims of a job have returned the same epoch; what a fenced save
replaced had the epoch it expected; and what a reap has changed was RUNNING with an expired lease.
-/
structure Fencing (t : State C) : Prop where
  epochs : ∀ id, (t.epochs id).Pairwise (· ≤ ·)
  stored : ∀ id doc, t.docs id = some doc → (t.epochs id).getLast? = some doc.leaseEpoch
  claims : (leases t.results).Nodup
  saves : ∀ x ∈ t.replaced, ∃ doc, x.2 = some doc ∧ doc.leaseEpoch = x.1
  reaps : ∀ x ∈ t.reaped, x.2.leaseExpired x.1 = true

def Kept (t : State C) : Prop := ∀ id, t.epochs id ≠ [] → t.docs id ≠ none

/-- A write by id finds the document as the client has last seen it, and a document is not inserted
with an epoch below those that were stored of its job. -/
def InTurn (t : State C) : Move C → Prop
  | .delete c => ∀ job e found, t.clients c = .deleting job (some (e, found)) →
      t.docs job.jobId = some found
  | .insert c => ∀ job, t.clients c = .inserting job → t.docs job.jobId = none →
      ∀ e ∈ t.epochs job.jobId, e ≤ job.leaseEpoch
  | .bump c => ∀ ttl doc, t.clients c = .bumping ttl doc → t.docs doc.jobId = some doc
  | .reapNext c => ∀ current doc docs reaped, t.clients c = .reaping current (doc :: docs) reaped →
      ∀ stored, t.docs doc.jobId = some stored → stored = doc
  | _ => True

def FirstSave (t : State C) : Move C → Prop
  | .delete c => ∀ job checked, t.clients c = .deleting job checked → t.docs job.jobId = none
  | _ => True

def Client.Checked : Client → Prop
  | .deleting _ (some (e, found)) => found.leaseEpoch = e
  | .reaping current docs _ => ∀ doc ∈ docs, doc.leaseExpired current = true
  | _ => True

/-- What holds throughout, in turn. -/
structure Invariant (t : State C) : Prop where
  fencing : Fencing t
  ids : ∀ id doc, t.docs id = some doc → doc.jobId = id
  leased : ∀ x ∈ leases t.results, x.2 ∈ t.epochs x.1
  checked : ∀ c, (t.clients c).Checked

variable {t t' : State C} {a : Move C} {c : C} {doc : Job} {id : UUID}

omit [DecidableEq C] in
theorem le_of_getLast {l : List ℤ} {e : ℤ} (h : l.Pairwise (· ≤ ·)) (hlast : l.getLast? = some e) :
    ∀ x ∈ l, x ≤ e := by
  obtain ⟨pre, rfl⟩ := List.getLast?_eq_some_iff.mp hlast
  intro x hx
  rcases mem_append.mp hx with hx | hx
  · exact (pairwise_append.mp h).2.2 x hx e (mem_singleton.mpr rfl)
  · exact (mem_singleton.mp hx).le

omit [DecidableEq C] in
/-- No epoch that was stored of a job is above that of its document. -/
theorem Invariant.le (h : Invariant t) (hdoc : t.docs id = some doc) :
    ∀ e ∈ t.epochs id, e ≤ doc.leaseEpoch :=
  le_of_getLast (h.fencing.epochs id) (h.fencing.stored id doc hdoc)

theorem Invariant.goto (h : Invariant t) {client : Client} (hclient : client.Checked) :
    Invariant (t.goto c client) where
  fencing := ⟨h.fencing.epochs, h.fencing.stored, h.fencing.claims, h.fencing.saves,
    h.fencing.reaps⟩
  ids := h.ids
  leased := h.leased
  checked c' := by
    change (update t.clients c client c').Checked
    by_cases hc : c' = c
    · rwa [hc, update_self]
    · rw [update_of_ne hc]
      exact h.checked c'

/-- A call returns, and a lease that it returns is a new one. -/
theorem Invariant.return (h : Invariant t) {result : Result}
    (hlease : ∀ x ∈ leases [result], x.2 ∈ t.epochs x.1 ∧ x ∉ leases t.results) :
    Invariant (t.return c result) := by
  have hgoto : Invariant (t.goto c .idle) := h.goto trivial
  have happend : leases (t.results ++ [result]) = leases t.results ++ leases [result] :=
    filterMap_append ..
  refine ⟨⟨hgoto.fencing.epochs, hgoto.fencing.stored, ?_, hgoto.fencing.saves,
    hgoto.fencing.reaps⟩, hgoto.ids, ?_, hgoto.checked⟩
  · change (leases (t.results ++ [result])).Nodup
    rw [happend]
    refine nodup_append.mpr ⟨h.fencing.claims, ?_, ?_⟩
    · rcases result with _ | ⟨_ | _, _ | _⟩ | _ | _ <;> simp [leases]
    · intro x hx y hy heq
      exact (hlease y hy).2 (heq ▸ hx)
  · change ∀ x ∈ leases (t.results ++ [result]), _
    rw [happend]
    intro x hx
    rcases mem_append.mp hx with hx | hx
    · exact h.leased x hx
    · exact (hlease x hx).1

omit [DecidableEq C] in
/-- A document is stored with an epoch that is not below those before. -/
theorem Invariant.store (h : Invariant t) (hle : ∀ e ∈ t.epochs doc.jobId, e ≤ doc.leaseEpoch) :
    Invariant (t.store doc) := by
  refine ⟨⟨fun id => ?_, fun id d hd => ?_, h.fencing.claims, h.fencing.saves, h.fencing.reaps⟩,
    fun id d hd => ?_, fun x hx => ?_, h.checked⟩
  · change (update t.epochs doc.jobId _ id).Pairwise (· ≤ ·)
    by_cases hid : id = doc.jobId
    · rw [hid, update_self]
      refine pairwise_append.mpr ⟨h.fencing.epochs _, pairwise_singleton .., ?_⟩
      intro e he x hx
      rw [mem_singleton.mp hx]
      exact hle e he
    · rw [update_of_ne hid]
      exact h.fencing.epochs id
  · change update t.docs doc.jobId (some doc) id = some d at hd
    change (update t.epochs doc.jobId _ id).getLast? = _
    by_cases hid : id = doc.jobId
    · rw [hid, update_self] at hd ⊢
      cases hd
      exact List.getLast?_concat ..
    · rw [update_of_ne hid] at hd ⊢
      exact h.fencing.stored id d hd
  · change update t.docs doc.jobId (some doc) id = some d at hd
    by_cases hid : id = doc.jobId
    · rw [hid, update_self] at hd
      cases hd
      exact hid.symm
    · rw [update_of_ne hid] at hd
      exact h.ids id d hd
  · change x.2 ∈ update t.epochs doc.jobId _ x.1
    by_cases hid : x.1 = doc.jobId
    · rw [hid, update_self]
      exact mem_append_left _ (hid ▸ h.leased x hx)
    · rw [update_of_ne hid]
      exact h.leased x hx

omit [DecidableEq C] in
/-- A document is stored in the place of another, whose epoch is not above its own. -/
theorem Invariant.replace (h : Invariant t) {stored : Job} (hdoc : t.docs id = some stored)
    (hid : doc.jobId = stored.jobId) (hle : stored.leaseEpoch ≤ doc.leaseEpoch) :
    Invariant (t.store doc) := by
  refine h.store fun e he => ?_
  rw [hid, h.ids id stored hdoc] at he
  exact (h.le hdoc e he).trans hle

omit [DecidableEq C] in
/-- A document is deleted, as a fenced save has found it. -/
theorem Invariant.delete (h : Invariant t) {found : List (ℤ × Option Job)}
    (hfound : ∀ x ∈ found, ∃ doc, x.2 = some doc ∧ doc.leaseEpoch = x.1) :
    Invariant { t with
      docs := update t.docs id none, replaced := t.replaced ++ found } := by
  have hdocs : ∀ id' doc, update t.docs id none id' = some doc →
      t.docs id' = some doc := by
    intro id' doc hdoc
    by_cases hid : id' = id
    · rw [hid, update_self] at hdoc
      cases hdoc
    · rwa [update_of_ne hid] at hdoc
  refine ⟨⟨h.fencing.epochs, fun id' doc hdoc => h.fencing.stored id' doc (hdocs id' doc hdoc),
    h.fencing.claims, ?_, h.fencing.reaps⟩, fun id' doc hdoc => h.ids id' doc (hdocs id' doc hdoc),
    h.leased, h.checked⟩
  intro x hx
  rcases mem_append.mp hx with hx | hx
  · exact h.fencing.saves x hx
  · exact hfound x hx

@[simp] theorem claimUpdate_jobId (owner : Option String) (ttl : Option Duration) (now : Instant) :
    (claimUpdate doc owner ttl now).jobId = doc.jobId := by
  cases ttl <;> rfl

@[simp] theorem claimUpdate_leaseEpoch (owner : Option String) (ttl : Option Duration)
    (now : Instant) : (claimUpdate doc owner ttl now).leaseEpoch = doc.leaseEpoch := by
  cases ttl <;> rfl

omit [DecidableEq C] in
theorem leases_of_none {result : Result} (h : leases [result] = []) :
    ∀ x ∈ leases [result], x.2 ∈ t.epochs x.1 ∧ x ∉ leases t.results := by
  rw [h]
  exact fun _ hx => absurd hx not_mem_nil

theorem Invariant.step (h : Invariant t) (hturn : InTurn t a) (hstep : Step t a t') :
    Invariant t' := by
  cases hstep with
  | unfenced => exact h.goto trivial
  | checked _ _ hepoch => exact h.goto hepoch
  | refused => exact h.return (leases_of_none rfl)
  | @delete c job checked hclient =>
    have hgoto : Invariant (t.goto c (.inserting job)) := h.goto trivial
    refine hgoto.delete fun x hx => ?_
    rcases checked with _ | ⟨e, found⟩
    · exact absurd hx not_mem_nil
    · have hchecked : found.leaseEpoch = e := by
        have := h.checked c
        rwa [hclient] at this
      rw [mem_singleton.mp hx]
      exact ⟨found, hturn job e found hclient, hchecked⟩
  | insert hclient hfree =>
    exact (h.store (hturn _ hclient hfree)).return (leases_of_none rfl)
  | duplicate => exact h.return (leases_of_none rfl)
  | @unclaimed _ _ _ ttl => exact h.return (leases_of_none (by cases ttl <;> rfl))
  | claimed _ hdoc =>
    exact (h.replace hdoc (claimUpdate_jobId ..) (claimUpdate_leaseEpoch ..).ge).return
      (leases_of_none rfl)
  | leased _ hdoc =>
    exact (h.replace hdoc (claimUpdate_jobId ..) (claimUpdate_leaseEpoch ..).ge).goto trivial
  | @bump c ttl doc stored hclient hdoc =>
    obtain rfl : stored = doc := by
      have := hturn ttl doc hclient
      rw [hdoc] at this
      exact Option.some.inj this
    have hlt : ∀ e ∈ t.epochs stored.jobId, e < stored.leaseEpoch + 1 := fun e he =>
      Int.lt_add_one_of_le (h.le hdoc e he)
    have hstore : Invariant (t.store { stored with leaseEpoch := stored.leaseEpoch + 1 }) :=
      h.replace hdoc rfl (Int.lt_succ _).le
    refine hstore.return fun x hx => ?_
    rw [mem_singleton.mp hx]
    constructor
    · change stored.leaseEpoch + 1 ∈ update t.epochs stored.jobId _ stored.jobId
      rw [update_self]
      exact mem_append_right _ (mem_singleton.mpr rfl)
    · exact fun hx => lt_irrefl _ (hlt _ (h.leased _ hx))
  | bumpNothing hclient hdoc =>
    have := hturn _ _ hclient
    rw [hdoc] at this
    cases this
  | @renewed _ _ _ _ ttl now doc _ hdoc =>
    have hstore : Invariant (t.store (doc.renewed ttl now)) := h.replace hdoc rfl le_rfl
    exact hstore.return (leases_of_none rfl)
  | notRenewed => exact h.return (leases_of_none rfl)
  | reap _ hfound => exact h.goto hfound.expired
  | @reapOne c current doc stored docs reaped hclient hdoc =>
    obtain rfl := hturn current doc docs reaped hclient stored hdoc
    have hchecked : ∀ d ∈ stored :: docs, d.leaseExpired current = true := by
      have := h.checked c
      rwa [hclient] at this
    have hstore : Invariant (t.store (reapUpdate stored stored)) :=
      h.replace hdoc rfl (Int.lt_succ _).le
    have hgoto : Invariant ((t.store (reapUpdate stored stored)).goto c
        (.reaping current docs (reaped ++ [stored.reaped]))) :=
      hstore.goto fun d hd => hchecked d (mem_cons_of_mem _ hd)
    refine ⟨⟨hgoto.fencing.epochs, hgoto.fencing.stored, hgoto.fencing.claims, hgoto.fencing.saves,
      fun x hx => ?_⟩, hgoto.ids, hgoto.leased, hgoto.checked⟩
    rcases mem_append.mp hx with hx | hx
    · exact h.fencing.reaps x hx
    · rw [mem_singleton.mp hx]
      exact hchecked stored mem_cons_self
  | @reapNothing c current doc docs reaped hclient hdoc =>
    have hchecked := h.checked c
    rw [hclient] at hchecked
    exact h.goto fun d hd => hchecked d (mem_cons_of_mem _ hd)
  | reapEnd => exact h.return (leases_of_none rfl)
  | crash => exact h.goto trivial

/-! ## Nothing is gone -/

omit [DecidableEq C] in
theorem Kept.store (h : Kept t) : Kept (t.store doc) := by
  intro id hid
  change update t.docs doc.jobId (some doc) id ≠ none
  by_cases heq : id = doc.jobId
  · rw [heq, update_self]
    exact Option.some_ne_none doc
  · rw [update_of_ne heq]
    have hsaved : (t.store doc).epochs id = t.epochs id := update_of_ne heq ..
    exact h id (hsaved ▸ hid)

/-- Only the `delete` of a save can lose a job. -/
theorem Kept.step (h : Kept t) (hfirst : FirstSave t a) (hstep : Step t a t') : Kept t' := by
  cases hstep with
  | unfenced | checked | refused | duplicate | unclaimed | bumpNothing | notRenewed | reap
  | reapNothing | reapEnd | crash => exact h
  | insert | claimed | leased | bump | renewed | reapOne => exact h.store
  | delete hclient =>
    intro id hid
    change update t.docs _ none id ≠ none
    rw [update_eq_self_iff.mpr (hfirst _ _ hclient).symm]
    exact h id hid

/-- **Lease fencing of the MongoDB store.** Leases are fenced in every state of a run in which every
write by id is in turn, and no job is ever gone in a run in which no save finds a document to
delete. -/
theorem document_fencing {l : List (Move C)} :
    (Guarded Step (fun _ => InTurn) {} l t → Fencing t) ∧
      (Guarded Step (fun _ => FirstSave) {} l t → Kept t) := by
  constructor
  · intro hrun
    have hstart : Invariant ({} : State C) :=
      ⟨⟨fun _ => .nil, (fun _ _ h => by cases h), .nil, (fun _ h => absurd h not_mem_nil),
        fun _ h => absurd h not_mem_nil⟩, (fun _ _ h => by cases h),
        (fun _ h => absurd h not_mem_nil), fun _ => trivial⟩
    have hinv : Invariant t := hrun.invariant (I := fun _ t => Invariant t) hstart
      fun l t a t' _ hturn hstep h => h.step hturn hstep
    exact hinv.fencing
  · intro hrun
    exact hrun.invariant (I := fun _ t => Kept t) (fun _ h => absurd rfl h)
      fun l t a t' _ hfirst hstep h => h.step hfirst hstep

end

def invoice : Job := { jobId := 1 }

/-- The invoice with a lease of `worker`, before its epoch is bumped. -/
def leasedInvoice (worker : String) (now : Instant) : Job :=
  claimUpdate invoice (some worker) (some 10) now

theorem others_update {docs : UUID → Option Job} {id : UUID} {doc : Option Job}
    (h : ∀ other, other ≠ id → docs other = none) :
    ∀ other, other ≠ id → update docs id doc other = none :=
  fun other hne => (update_of_ne hne _ _).trans (h other hne)

/-- What a reap finds in a collection that holds one document. -/
theorem found_single {t : State Bool} {doc : Job} {current : Instant}
    (hdoc : t.docs doc.jobId = some doc) (hexpired : doc.leaseExpired current = true)
    (hother : ∀ id, id ≠ doc.jobId → t.docs id = none) : Found t current 100 [doc] where
  nodup := by simp
  stored d hd := by rwa [mem_singleton.mp hd]
  expired d hd := by rwa [mem_singleton.mp hd]
  atMost _ := by simp
  complete id d hd _ := by
    by_cases hid : id = doc.jobId
    · rw [hid, hdoc] at hd
      exact Or.inl (mem_singleton.mpr (Option.some.inj hd).symm)
    · rw [hother id hid] at hd
      cases hd

/-- A job is saved, claimed and saved again under the lease, reaped, and claimed by another client;
and a job is saved and claimed. -/
theorem document_fencing_invoice :
    (∃ t : State Bool, leases t.results = [(1, 1), (1, 3)] ∧ t.replaced.length = 1 ∧
      t.reaped.length = 1 ∧ Fencing t) ∧
    ∃ t : State Bool, t.epochs 1 = [0, 0, 1] ∧ Kept t := by
  let held := { leasedInvoice "a" 0 with leaseEpoch := 1 }
  have hclaimed : Guarded (Step (C := Bool)) (fun _ t a => InTurn t a ∧ FirstSave t a) {}
      ([] ++ [Move.save true invoice none] ++ [Move.delete true] ++ [Move.insert true] ++
        [Move.tryClaim true 1 (some "a") (some 10) 0] ++ [Move.bump true]) _ :=
    .snoc (.snoc (.snoc (.snoc (.snoc .nil ⟨trivial, trivial⟩ (.unfenced rfl))
      ⟨fun _ _ _ h => (by cases h), fun _ _ _ => rfl⟩ (.delete rfl))
      ⟨fun _ _ _ _ h => (by cases h), trivial⟩ (.insert rfl rfl)) ⟨trivial, trivial⟩
      (.leased rfl rfl ⟨rfl, rfl⟩)) ⟨fun _ _ h => by cases h; rfl, trivial⟩ (.bump rfl rfl)
  have hdeleted := ((hclaimed.mono fun _ _ _ h => h.1).snoc (a := .save true held (some 1))
    (by exact trivial) (.checked rfl rfl (by rfl))).snoc (a := .delete true)
    (by exact fun _ _ _ h => by cases h; rfl) (.delete rfl)
  have hsaved := hdeleted.snoc (a := .insert true)
    (by rintro _ ⟨⟩ _; decide) (.insert rfl rfl)
  have hfound := hsaved.snoc (a := .reap false 20 100 [held]) (by exact trivial)
    (.reap rfl (found_single rfl rfl (others_update <| others_update <| others_update <|
      others_update <| others_update <| others_update fun _ _ => rfl)))
  have hreaped := hfound.snoc (a := .reapNext false)
    (by rintro _ _ _ _ ⟨⟩ _ ⟨⟩; rfl) (.reapOne rfl rfl)
  have hended := hreaped.snoc (a := .reapNext false) (by rintro _ _ _ _ ⟨⟩) (.reapEnd rfl)
  have hleased := hended.snoc (a := .tryClaim false 1 (some "b") (some 10) 20) (by exact trivial)
    (.leased rfl rfl ⟨rfl, rfl⟩)
  have hagain := hleased.snoc (a := .bump false) (by rintro _ _ ⟨⟩; rfl) (.bump rfl rfl)
  exact ⟨⟨_, rfl, rfl, rfl, document_fencing.1 hagain⟩,
    _, rfl, document_fencing.2 (hclaimed.mono fun _ _ _ h => h.2)⟩

/-- **Each part can fail.** A save deletes the job; a late second update of a claim turns the epoch
back, or hands it out twice; a fenced save replaces what was claimed after its check; and a reap
takes back a job whose lease was renewed after its query. -/
theorem windows_open :
    ¬(∀ l (t : State Bool), Run Step {} l t → Kept t) ∧
    ¬(∀ l (t : State Bool), Run Step {} l t → ∀ id, (t.epochs id).Pairwise (· ≤ ·)) ∧
    ¬(∀ l (t : State Bool), Run Step {} l t → (leases t.results).Nodup) ∧
    ¬(∀ l (t : State Bool), Run Step {} l t →
      ∀ x ∈ t.replaced, ∃ doc, x.2 = some doc ∧ doc.leaseEpoch = x.1) ∧
    ¬(∀ l (t : State Bool), Run Step {} l t → ∀ x ∈ t.reaped, x.2.leaseExpired x.1 = true) := by
  have hsaved : Run Step ({} : State Bool)
      [.save true invoice none, .delete true, .insert true] _ :=
    .cons (.unfenced rfl) (.cons (.delete rfl) (.single (.insert rfl rfl)))
  have hleased := hsaved.append (.single (a := .tryClaim true 1 (some "a") (some 10) 0)
    (.leased rfl rfl ⟨rfl, rfl⟩))
  refine ⟨fun h => ?_, fun h => ?_, fun h => ?_, fun h => ?_, fun h => ?_⟩
  · have hgone := hsaved.append (.cons (a := .save true invoice none) (.unfenced rfl)
      (.single (a := .delete true) (.delete rfl)))
    exact h _ _ hgone 1 (cons_ne_nil 0 []) rfl
  · have hreaped := hleased.append (.cons (a := .reap false 20 100 [leasedInvoice "a" 0])
      (.reap rfl (found_single rfl rfl
        (others_update <| others_update <| others_update fun _ _ => rfl)))
      (.cons (a := .reapNext false) (.reapOne rfl rfl)
        (.single (a := .reapNext false) (.reapEnd rfl))))
    have hlate := hreaped.append (.cons (a := .tryClaim false 1 (some "b") (some 10) 20)
      (.leased rfl rfl ⟨rfl, rfl⟩) (.cons (a := .bump false) (.bump rfl rfl)
        (.single (a := .bump true) (.bump rfl rfl))))
    have hpairwise : [(0 : ℤ), 0, 1, 1, 2, 1].Pairwise (· ≤ ·) := h _ _ hlate 1
    exact absurd hpairwise (by decide)
  · have hagain := hleased.append (.cons (a := .save false invoice none) (.unfenced rfl)
      (.cons (a := .delete false) (.delete rfl) (.cons (a := .insert false) (.insert rfl rfl)
        (.cons (a := .tryClaim false 1 (some "b") (some 10) 20) (.leased rfl rfl ⟨rfl, rfl⟩)
          (.cons (a := .bump false) (.bump rfl rfl)
            (.single (a := .bump true) (.bump rfl rfl)))))))
    have hnodup : [((1 : UUID), (1 : ℤ)), (1, 1)].Nodup := h _ _ hagain
    exact absurd hnodup (by decide)
  · have hchecked := hsaved.append (.single (a := .save true invoice (some 0))
      (.checked rfl rfl (by rfl)))
    have hclaimed := hchecked.append (.cons (a := .tryClaim false 1 (some "b") (some 10) 20)
      (.leased rfl rfl ⟨rfl, rfl⟩) (.single (a := .bump false) (.bump rfl rfl)))
    have hovertaken := hclaimed.append (.single (a := .delete true) (.delete rfl))
    obtain ⟨doc, hdoc, hepoch⟩ := h _ _ hovertaken _ mem_cons_self
    cases hdoc
    cases hepoch
  · have hbumped := hleased.append (.single (a := .bump true) (.bump rfl rfl))
    have hfound := hbumped.append
      (.single (a := .reap false 20 100 [{ leasedInvoice "a" 0 with leaseEpoch := 1 }])
        (.reap rfl (found_single rfl rfl
          (others_update <| others_update <| others_update <| others_update fun _ _ => rfl))))
    have hrenewed := hfound.append (.single (a := .renew true 1 "a" 1 10 20)
      (.renewed rfl rfl rfl (by rfl)))
    have hovertaken := hrenewed.append (.single (a := .reapNext false) (.reapOne rfl rfl))
    exact absurd (h _ _ hovertaken _ mem_cons_self) (by decide)

end BeanieJobStore

end Varco
