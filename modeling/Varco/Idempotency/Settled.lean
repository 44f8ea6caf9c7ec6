import Varco.Idempotency.Middleware

/-!
# What a request leaves behind

A request that acquired a reservation settles it: it completes the key with the captured response,
or it releases the key. `_execute_and_capture` does so on the ways out that it returns from, and no
`try` statement covers the others: an exception from the downstream application, in place of its
response or in the middle of its body, passes with the reservation in progress, and the client is
answered 409 until it has expired.

`settled_iff` says which requests settle their reservation: exactly those in which neither the
downstream call nor the call that settles it fails.
-/

namespace Varco

abbrev HttpEntry := Entry HttpChoice HttpCmd HttpCmd.Res

namespace HttpEntry

def acquires (key fp : String) : HttpEntry → Bool
  | ⟨_, .reserve key' fp' _, .ok .acquired⟩ => key' = key && fp' = fp
  | _ => false

/-- The downstream call ends with an exception, the body cannot be read to its end, or the store
does not carry out the call that settles the reservation. -/
def fails : HttpEntry → Bool
  | ⟨_, .callNext, r⟩ => !r.isOk
  | ⟨_, .drain, (chunks, ending)⟩ => ending.isSome || !(joinChunks chunks).isOk
  | ⟨x, .complete .., _⟩ => x.interrupt = .before
  | ⟨x, .release _, _⟩ => x.interrupt = .before
  | _ => false

theorem eq_of_acquires {key fp : String} {e : HttpEntry} (h : acquires key fp e = true) :
    ∃ x ttl, e = ⟨x, .reserve key fp ttl, .ok .acquired⟩ := by
  unfold acquires at h
  split at h
  · simp only [Bool.and_eq_true, decide_eq_true_eq] at h
    obtain ⟨rfl, rfl⟩ := h
    exact ⟨_, _, rfl⟩
  · cases h

end HttpEntry

namespace IdempotencyMiddleware

open HttpEntry

variable {σ : Type}

/-- `record` is the response from downstream, as the middleware captures it. -/
def Captured (mw : IdempotencyMiddleware) (fp : String) (log : List HttpEntry)
    (record : IdempotencyRecord) : Prop :=
  ∃ x response x' chunks body createdAt,
    (⟨x, .callNext, .ok response⟩ : HttpEntry) ∈ log ∧
    (⟨x', .drain, (chunks, none)⟩ : HttpEntry) ∈ log ∧
    joinChunks chunks = .ok body ∧ record = mw.record response body fp createdAt

def Settled (mw : IdempotencyMiddleware) (store : AbstractIdempotencyStore σ) (key fp : String)
    (log : List HttpEntry) (s : σ) : Prop :=
  store.state s key = .free ∨
    ∃ record, mw.Captured fp log record ∧ store.state s key = .completed record

/-! ## The ways out -/

/-- The commands of `_execute_and_capture`, for each of the ways out. -/
inductive WayOut (mw : IdempotencyMiddleware) (key fp : String) : List HttpEntry → Prop
  | raised (x : HttpChoice) (e : Exc) : WayOut mw key fp [⟨x, .callNext, .error e⟩]
  | released (x x' : HttpChoice) (response : Response) (r : Except Exc Unit) :
      WayOut mw key fp [⟨x, .callNext, .ok response⟩, ⟨x', .release key, r⟩]
  | undrained (x x' : HttpChoice) (response : Response) (d : List Chunk × Option Exc)
      (h : fails ⟨x', .drain, d⟩ = true) :
      WayOut mw key fp [⟨x, .callNext, .ok response⟩, ⟨x', .drain, d⟩]
  | completed (x x' x₁ x₂ : HttpChoice) (response : Response) (chunks : List Chunk) (body : Bytes)
      (t : Instant) (r : Except Exc Unit) (h : joinChunks chunks = .ok body) :
      WayOut mw key fp [⟨x, .callNext, .ok response⟩, ⟨x', .drain, (chunks, none)⟩,
        ⟨x₁, .now, t⟩, ⟨x₂, .complete key (mw.record response body fp t), r⟩]

variable {mw : IdempotencyMiddleware} {lib : FingerprintLib} {request : Request}
  {ctx : RequestContext} {key fp : String}

def Unreserved (log : List HttpEntry) : Prop :=
  ∀ e ∈ log, ∀ key fp, acquires key fp e = false

theorem Unreserved.append {l₁ l₂ : List HttpEntry} (h₁ : Unreserved l₁) (h₂ : Unreserved l₂) :
    Unreserved (l₁ ++ l₂) := by
  intro e he
  rcases List.mem_append.mp he with he | he
  · exact h₁ e he
  · exact h₂ e he

theorem Unreserved.snoc {l : List HttpEntry} {e : HttpEntry} (h : Unreserved l)
    (he : ∀ key fp, acquires key fp e = false) : Unreserved (l ++ [e]) :=
  h.append (by simpa [Unreserved] using he)

theorem WayOut.unreserved {l : List HttpEntry} (h : WayOut mw key fp l) : Unreserved l := by
  cases h <;> simp [Unreserved, acquires]

/-- What is shown of the programs below: nothing of the commands and answers, `Ψ` of the log at the
end. -/
abbrev Ends {α : Type} (Ψ : List HttpEntry → Except Exc α → Prop) (p : Handler α)
    (log : List HttpEntry) : Prop :=
  Prog.Local (fun _ _ _ => True) (fun _ _ => True) Ψ p.run log

variable {log : List HttpEntry}

theorem ends_ofExcept {α β : Type} {Ψ : List HttpEntry → Except Exc β → Prop}
    {r : Except PyException α} {f : α → Handler β}
    (hok : ∀ a, r = .ok a → Ends Ψ (f a) log)
    (herr : ∀ e, r = .error e → Ψ log (.error (.error e))) :
    Ends Ψ (Handler.ofExcept r >>= f) log := by
  cases r with
  | ok a => exact hok a rfl
  | error e => exact herr e rfl

/-- An await: what is left after its answer, or what holds of the exception. -/
theorem ends_await {α β : Type} {Ψ : List HttpEntry → Except Exc β → Prop} {c : HttpCmd}
    {g : c.Res → Except Exc α} {f : α → Handler β}
    (hok : ∀ x r a, g r = .ok a → Ends Ψ (f a) (log ++ [⟨x, c, r⟩]))
    (herr : ∀ x r e, g r = .error e → Ψ (log ++ [⟨x, c, r⟩]) (.error e)) :
    Ends Ψ (Prog.await c g >>= f) log :=
  Prog.Local.bindAwait trivial (fun x r a _ hg => hok x r a hg) herr

theorem ends_executeAndCapture (log : List HttpEntry) :
    Ends (fun l _ => ∃ l', WayOut mw key fp l' ∧ l = log ++ l') (mw.executeAndCapture key fp)
      log := by
  unfold executeAndCapture
  refine ends_await (fun x r response hr => ?_) fun x r e hr => ?_
  · obtain rfl : r = .ok response := hr
    split_ifs
    · refine ends_await (fun x' d chunks hd => ?_) fun x' d e hd => ?_
      · obtain ⟨chunks, _ | e⟩ := d
        · cases hd
          refine ends_ofExcept (fun body hj => ?_) fun e hj => ?_
          · refine Prog.Local.call trivial fun x₁ t _ => ?_
            refine ends_await (fun x₂ r u _ => ?_) fun x₂ r e _ => ?_
            · exact ⟨_, .completed x x' x₁ x₂ response chunks body t r hj, by simp⟩
            · exact ⟨_, .completed x x' x₁ x₂ response chunks body t r hj, by simp⟩
          · refine ⟨_, .undrained x x' response (chunks, none) ?_, by simp⟩
            simp [fails, hj, Except.isOk, Except.toBool]
        · cases hd
      · refine ⟨_, .undrained x x' response d ?_, by simp⟩
        obtain ⟨chunks, _ | e⟩ := d
        · cases hd
        · rfl
    · refine ends_await (fun x' r u _ => ?_) fun x' r e _ => ?_
      · exact ⟨_, .released x x' response r, by simp⟩
      · exact ⟨_, .released x x' response r, by simp⟩
  · obtain rfl : r = .error e := hr
    exact ⟨_, .raised x e, rfl⟩

/-- No reservation was acquired, or one was and then the request took one of the ways out. -/
def Reserved (mw : IdempotencyMiddleware) (log : List HttpEntry) : Prop :=
  Unreserved log ∨ ∃ pre e post key fp, log = pre ++ e :: post ∧ Unreserved pre ∧
    (∀ e ∈ pre, e.fails = false) ∧ acquires key fp e = true ∧ WayOut mw key fp post

theorem ends_proceed {rawKey : String} {x : HttpChoice}
    {outcome : ReserveOutcome} (hlog : Unreserved log)
    (hok : ∀ e ∈ log, fails e = false) :
    Ends (fun l _ => mw.Reserved l) (mw.proceed rawKey key fp outcome)
      (log ++ [⟨x, .reserve key fp mw.ttl, .ok outcome⟩]) := by
  cases outcome with
  | acquired =>
    refine (ends_executeAndCapture _).mono ?_
    rintro l - ⟨l', hout, rfl⟩
    refine Or.inr ⟨log, ⟨x, .reserve key fp mw.ttl, .ok .acquired⟩, l', key, fp, by simp, hlog, hok,
      ?_, hout⟩
    simp [acquires]
  | inFlight => exact Prog.Local.throw (Or.inl (hlog.snoc fun _ _ => rfl))
  | replay =>
    have hlog₁ := hlog.snoc (e := ⟨x, .reserve key fp mw.ttl, .ok .replay⟩) fun _ _ => rfl
    refine ends_await (fun x' r found _ => ?_) fun x' r e _ => Or.inl (hlog₁.snoc fun _ _ => rfl)
    have hlog₂ := hlog₁.snoc (e := ⟨x', .get key, r⟩) fun _ _ => rfl
    cases found with
    | none =>
      -- the response is gone: the request is executed without a reservation
      refine (ends_executeAndCapture _).mono ?_
      rintro l - ⟨l', hout, rfl⟩
      exact Or.inl (hlog₂.append hout.unreserved)
    | some record =>
      change Ends _ (ite _ _ _) _
      split_ifs
      · exact Prog.Local.throw (Or.inl hlog₂)
      · exact Prog.Local.pure_ok (Or.inl hlog₂)

theorem ends_handleKey {rawKey : String} :
    Ends (fun l _ => mw.Reserved l) (mw.handleKey lib request ctx rawKey) [] := by
  unfold handleKey
  have hnil : Unreserved [] := by simp [Unreserved]
  refine ends_ofExcept (fun _ _ => ?_) fun e _ => Or.inl hnil
  refine ends_await (fun x r body _ => ?_) fun x r e _ => Or.inl (hnil.snoc fun _ _ => rfl)
  have hbody := hnil.snoc (e := ⟨x, .body, r⟩) fun _ _ => rfl
  refine ends_ofExcept (fun key _ => ?_) fun e _ => Or.inl hbody
  refine ends_await (fun x' r outcome hr => ?_) fun x' r e hr => Or.inl (hbody.snoc ?_)
  · obtain rfl : r = .ok outcome := hr
    exact ends_proceed hbody (by simp [fails])
  · obtain rfl : r = .error e := hr
    exact fun _ _ => rfl

theorem ends_passThrough : Ends (fun l _ => mw.Reserved l) passThrough [] := by
  have hlog : ∀ x r, Unreserved [(⟨x, .callNext, r⟩ : HttpEntry)] := by
    simp [Unreserved, acquires]
  refine ends_await (fun x r response _ => ?_) fun x r e _ => Or.inl (hlog x r)
  exact Prog.Local.pure_ok (Or.inl (hlog x r))

/-- **The ways out of a request.** -/
theorem ends_dispatch : Ends (fun l _ => mw.Reserved l) (mw.dispatch lib request ctx) [] := by
  unfold dispatch
  by_cases happlies : !mw.appliesTo request
  · rw [if_pos happlies]
    exact ends_passThrough
  · rw [if_neg happlies]
    split
    · split_ifs
      · exact Prog.Local.throw (Or.inl (by simp [Unreserved]))
      · exact ends_passThrough
    · exact ends_handleKey

/-! ## What is left in the store -/

variable {store : AbstractIdempotencyStore σ} {s s' : σ} {x : HttpChoice}

abbrev StoreStep (store : AbstractIdempotencyStore σ) (s : σ) (e : HttpEntry) (s' : σ) : Prop :=
  store.exec e.choice e.cmd s = (e.res, s')

theorem state_of_acquires {e : HttpEntry} (he : acquires key fp e = true)
    (h : StoreStep store s e s') : store.state s' key = .inProgress := by
  obtain ⟨x, ttl, rfl⟩ := eq_of_acquires he
  obtain ⟨hres, rfl⟩ := HttpChoice.await_eq_ok h
  exact store.state_reserve s x.clock key fp ttl hres

theorem state_of_complete {record : IdempotencyRecord} {r : Except Exc Unit}
    (h : StoreStep store s ⟨x, .complete key record, r⟩ s') (hs : store.state s key = .inProgress) :
    store.state s' key = if x.interrupt = .before then .inProgress else .completed record := by
  have hs' : s' = (x.await s (.ok ()) (store.complete s x.clock key record)).2 :=
    (congrArg Prod.snd h).symm
  rw [hs', HttpChoice.await_snd]
  split_ifs
  · exact hs
  · exact store.state_complete s x.clock key record hs

theorem state_of_release {r : Except Exc Unit} (h : StoreStep store s ⟨x, .release key, r⟩ s')
    (hs : store.state s key = .inProgress) :
    store.state s' key = if x.interrupt = .before then .inProgress else .free := by
  have hs' : s' = (x.await s (.ok ()) (store.release s key)).2 := (congrArg Prod.snd h).symm
  rw [hs', HttpChoice.await_snd]
  split_ifs
  · exact hs
  · exact store.state_release s key hs

/-- The key is in progress after a way out with a failure, and settled after one without. -/
theorem WayOut.settled_iff {l log : List HttpEntry} (hout : WayOut mw key fp l) (hlog : l ⊆ log)
    (h : Run (StoreStep store) s l s') (hs : store.state s key = .inProgress) :
    mw.Settled store key fp log s' ↔ ∀ e ∈ l, fails e = false := by
  cases hout with
  | raised x e =>
    obtain ⟨s₁, h₁, h⟩ := h.cons_inv
    obtain rfl := h.nil_inv
    obtain ⟨-, rfl⟩ := Prod.mk.inj h₁
    simp [Settled, hs, fails, Except.isOk, Except.toBool]
  | released x x' response r =>
    obtain ⟨s₁, h₁, h⟩ := h.cons_inv
    obtain ⟨s₂, h₂, h⟩ := h.cons_inv
    obtain rfl := h.nil_inv
    obtain ⟨-, rfl⟩ := Prod.mk.inj h₁
    have hstate := state_of_release h₂ hs
    by_cases hx : x'.interrupt = .before
    · simp [Settled, hstate, hx, fails]
    · simp [Settled, hstate, hx, fails, Except.isOk, Except.toBool]
  | undrained x x' response d hd =>
    obtain ⟨s₁, h₁, h⟩ := h.cons_inv
    obtain ⟨s₂, h₂, h⟩ := h.cons_inv
    obtain rfl := h.nil_inv
    obtain ⟨-, rfl⟩ := Prod.mk.inj h₁
    obtain ⟨-, rfl⟩ := Prod.mk.inj h₂
    simp [Settled, hs, hd]
  | completed x x' x₁ x₂ response chunks body t r hj =>
    obtain ⟨s₁, h₁, h⟩ := h.cons_inv
    obtain ⟨s₂, h₂, h⟩ := h.cons_inv
    obtain ⟨s₃, h₃, h⟩ := h.cons_inv
    obtain ⟨s₄, h₄, h⟩ := h.cons_inv
    obtain rfl := h.nil_inv
    obtain ⟨-, rfl⟩ := Prod.mk.inj h₁
    obtain ⟨-, rfl⟩ := Prod.mk.inj h₂
    obtain ⟨-, rfl⟩ := Prod.mk.inj h₃
    have hstate := state_of_complete h₄ hs
    have hcaptured : mw.Captured fp log (mw.record response body fp t) :=
      ⟨x, response, x', chunks, body, t, hlog (by simp), hlog (by simp), hj, rfl⟩
    by_cases hx : x₂.interrupt = .before
    · simp [Settled, hstate, hx, fails]
    · simp [Settled, hstate, hx, fails, hj, hcaptured, Except.isOk, Except.toBool]

/-- **No reservation outlives its request**, exactly when: for every request, every choice of the
environment and every store that keeps its contract, a request that acquired a reservation leaves
the key released or completed with the captured response if and only if nothing fails: the
downstream call returns a response, its body, if it is to be captured, is read to its end, and the
store carries out the call that settles the reservation. -/
theorem reservation_settled_iff {store : AbstractIdempotencyStore σ} {s s' : σ}
    {xs : ℕ → HttpChoice} {log : List HttpEntry} {reply : Except Exc Reply}
    (hrun : (mw.dispatch lib request ctx).run.run store.exec s xs = (log, reply, s'))
    (hacq : ∃ e ∈ log, acquires key fp e = true) :
    mw.Settled store key fp log s' ↔ ∀ e ∈ log, fails e = false := by
  have hlog : mw.Reserved ([] ++ ((mw.dispatch lib request ctx).run.run store.exec s xs).1) :=
    Prog.Local.of_run (fun _ _ _ => trivial) ends_dispatch s xs
  have hsteps : Run (StoreStep store) s ((mw.dispatch lib request ctx).run.run store.exec s xs).1
      ((mw.dispatch lib request ctx).run.run store.exec s xs).2.2 := Prog.run_steps _ s xs
  rw [hrun] at hlog hsteps
  obtain ⟨e, he, hkey⟩ := hacq
  rcases hlog with hno | ⟨pre, e', post, key', fp', rfl, hpre, hok, hacq', hout⟩
  · cases (hno e he key fp).symm.trans hkey
  · -- the reservation is the only one
    have hee : e = e' := by
      rcases List.mem_append.mp he with he | he
      · cases (hpre e he key fp).symm.trans hkey
      · rcases List.mem_cons.mp he with rfl | he
        · rfl
        · cases (hout.unreserved e he key fp).symm.trans hkey
    subst hee
    obtain ⟨x, ttl, rfl⟩ := eq_of_acquires hkey
    obtain ⟨x', ttl', heq⟩ := eq_of_acquires hacq'
    cases heq
    obtain ⟨t, t', -, hst, hpost⟩ := hsteps.at_label
    have hin := state_of_acquires hkey hst
    rw [hout.settled_iff (fun e he => by simp [he]) hpost hin]
    constructor
    · intro h e he
      rcases List.mem_append.mp he with he | he
      · exact hok e he
      · rcases List.mem_cons.mp he with rfl | he
        · rfl
        · exact h e he
    · intro h e he
      exact h e (by simp [he])

/-! ## Two requests -/

/-- `POST /orders` with a key and no body. -/
def ordersRequest : Request :=
  { method := "POST", path := "/orders", headers := [("idempotency-key", "k")] }

def emptyDigest : String := "e3b0c44298fc1c149afbf4c8996fb92427ae41e4649b934ca495991b7852b855"

/-- The fingerprint of `ordersRequest`. -/
def ordersDigest : String := "d2cd7273929c32d18b7e0d58470c50ed2c7d47c5564e019aba9211505e26cd5f"

/-- The library functions, for what is asked of them by `ordersRequest`: two digests. -/
def ordersLib : FingerprintLib where
  sha256 b := if b = [] then emptyDigest else ordersDigest
  parseQsl _ := []
  urlencode _ := ""

/-- What the environment chooses when downstream answers with a body of two bytes. -/
def answered : ℕ → HttpChoice
  | 2 => { response := .ok { statusCode := 201, headers := [("content-length", "2")] } }
  | 3 => { drain := ([.bytes [104, 105]], none) }
  | _ => {}

def handlerRaises : ℕ → HttpChoice
  | 2 => { response := .error (.error (.valueError "boom")) }
  | _ => {}

def bodyRaises : ℕ → HttpChoice
  | 2 => { response := .ok { statusCode := 201, headers := [("content-length", "2")] } }
  | 3 => { drain := ([.bytes [104]], some (.error (.valueError "boom"))) }
  | _ => {}

/-- `ordersRequest` over the in-memory store. -/
def orders (m : InMemoryIdempotencyStore) (xs : ℕ → HttpChoice) :
    List HttpEntry × Except Exc Reply × InMemoryIdempotencyStore :=
  (dispatch {} ordersLib ordersRequest {}).run.run InMemoryIdempotencyStore.contract.exec m xs

/-- The answered request completes its key. -/
theorem reservation_settled_iff_answered :
    Settled {} InMemoryIdempotencyStore.contract "k" ordersDigest (orders {} answered).1
      (orders {} answered).2.2 := by
  have hacq : ∃ e ∈ (orders {} answered).1, acquires "k" ordersDigest e = true := by
    decide +kernel
  have hok : ∀ e ∈ (orders {} answered).1, fails e = false := by decide +kernel
  exact (reservation_settled_iff rfl hacq).mpr hok

theorem not_settled_of_inProgress (h : store.state s key = .inProgress) :
    ¬mw.Settled store key fp log s := by
  rintro (hfree | ⟨record, -, hcompleted⟩)
  · cases h.symm.trans hfree
  · cases h.symm.trans hcompleted

/-- **A reservation left in progress**, by a handler that raises and by a body that breaks off: the
request has acquired the key, and neither released nor completed it. A second request with the key
is answered with a conflict. -/
theorem reservation_left_in_progress :
    ((∃ e ∈ (orders {} handlerRaises).1, acquires "k" ordersDigest e = true) ∧
      (orders {} handlerRaises).2.1 = .error (.error (.valueError "boom")) ∧
      ¬Settled {} InMemoryIdempotencyStore.contract "k" ordersDigest (orders {} handlerRaises).1
        (orders {} handlerRaises).2.2 ∧
      (orders (orders {} handlerRaises).2.2 answered).2.1 =
        .error (.error (keyConflictError "k"))) ∧
    (∃ e ∈ (orders {} bodyRaises).1, acquires "k" ordersDigest e = true) ∧
      (orders {} bodyRaises).2.1 = .error (.error (.valueError "boom")) ∧
      ¬Settled {} InMemoryIdempotencyStore.contract "k" ordersDigest (orders {} bodyRaises).1
        (orders {} bodyRaises).2.2 := by
  have hhandler : InMemoryIdempotencyStore.contract.state (orders {} handlerRaises).2.2 "k" =
      .inProgress := by decide +kernel
  have hbody : InMemoryIdempotencyStore.contract.state (orders {} bodyRaises).2.2 "k" =
      .inProgress := by decide +kernel
  refine ⟨⟨?_, ?_, not_settled_of_inProgress hhandler, ?_⟩, ?_, ?_, not_settled_of_inProgress hbody⟩
  all_goals decide +kernel

end IdempotencyMiddleware

end Varco
