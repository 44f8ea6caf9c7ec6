import Mathlib.Data.List.Count
import Varco.Idempotency.Settled

/-!
# Who shares a storage key

The storage key of a request is joined by `_scope_key` from the tenant, the subject and the key that
the client sent, with `:` between them. Nothing is escaped, the subject `-` stands for no subject,
and a request with neither tenant nor subject has the key of the client as it is. This module says
which callers have a storage key that no other caller can reach, and follows one stored response to
a caller it was not made for.
-/

namespace Varco

/-! ## Texts joined by a separator -/

section

variable {α : Type} {c : α}

/-- Three texts without the separator, joined by it, are joined from no other texts. -/
theorem join₃_inj [DecidableEq α] {x y z x' y' z' : List α} (hx : c ∉ x) (hy : c ∉ y) (hz : c ∉ z)
    (h : x' ++ c :: (y' ++ c :: z') = x ++ c :: (y ++ c :: z)) : x' = x ∧ y' = y ∧ z' = z := by
  -- the separators on the right are two, so there are no others on the left
  have hcount : (x' ++ c :: (y' ++ c :: z')).count c = 2 := by
    rw [h]
    simp [List.count_eq_zero.mpr hx, List.count_eq_zero.mpr hy, List.count_eq_zero.mpr hz]
  simp only [List.count_append, List.count_cons_self] at hcount
  have hx' : c ∉ x' := List.count_eq_zero.mp (by omega)
  have hy' : c ∉ y' := List.count_eq_zero.mp (by omega)
  obtain ⟨rfl, hrest⟩ := join_inj hx' hx h
  obtain ⟨rfl, rfl⟩ := join_inj hy' hy hrest
  exact ⟨rfl, rfl, rfl⟩

end

namespace IdempotencyMiddleware

variable {mw : IdempotencyMiddleware} {ctx ctx' : RequestContext} {key key' : String}

/-! ## Storage keys -/

def subject (ctx : RequestContext) : Option String := ctx.auth.bind (·.userId)

theorem currentSubject_eq (ctx : RequestContext) : currentSubject ctx = (subject ctx).getD "-" := by
  unfold currentSubject subject
  cases ctx.auth <;> rfl

/-- A request as it is seen by `_scope_key`. -/
def caller (tenant subject : Option String) : RequestContext := ⟨tenant, some ⟨subject⟩⟩

@[simp] theorem caller_tenant (t u : Option String) : (caller t u).tenant = t := rfl

@[simp] theorem subject_caller (t u : Option String) : subject (caller t u) = u := rfl

theorem scopeKey_tenant {t : String} (hmw : mw.tenancyEnabled = true) (ht : ctx.tenant = some t) :
    mw.scopeKey ctx key =
      .ok ("idempotency:" ++ t ++ ":" ++ (subject ctx).getD "-" ++ ":" ++ key) := by
  simp [scopeKey, hmw, ht, currentSubject_eq]

/-- The storage key where keys are not scoped by tenant. -/
theorem scopeKey_untenanted (hmw : mw.tenancyEnabled = false) :
    mw.scopeKey ctx key = .ok (if (subject ctx).getD "-" = "-" then key
      else "idempotency:-:" ++ (subject ctx).getD "-" ++ ":" ++ key) := by
  by_cases hsub : (subject ctx).getD "-" = "-" <;> simp [scopeKey, currentSubject_eq, hmw, hsub]

theorem scopeKey_tenant_inj {t t' u u' : String}
    (h : "idempotency:" ++ t' ++ ":" ++ u' ++ ":" ++ key' =
      "idempotency:" ++ t ++ ":" ++ u ++ ":" ++ key) :
    t'.toList ++ ':' :: (u'.toList ++ ':' :: key'.toList) =
      t.toList ++ ':' :: (u.toList ++ ':' :: key.toList) := by
  have hlist := congrArg String.toList h
  simp only [String.toList_append, List.append_assoc] at hlist
  simpa using hlist

/-- No other caller has the storage key of this one: what has the same storage key is of the same
tenant and the same subject, and was sent with the same key. -/
def Unshared (mw : IdempotencyMiddleware) (ctx : RequestContext) (key : String) : Prop :=
  ∀ storageKey, mw.scopeKey ctx key = .ok storageKey →
    ∀ ctx' key', mw.scopeKey ctx' key' = .ok storageKey →
      ctx'.tenant = ctx.tenant ∧ subject ctx' = subject ctx ∧ key' = key

/-- The parts of a storage key can be told apart: keys are scoped by tenant, and if the request has
a tenant it has a subject too, which is not `-`, with no `:` in the tenant, the subject or the key.
-/
def Separable (mw : IdempotencyMiddleware) (ctx : RequestContext) (key : String) : Prop :=
  mw.tenancyEnabled = true ∧ ∀ t, ctx.tenant = some t →
    ':' ∉ t.toList ∧ ':' ∉ key.toList ∧ ∃ u, subject ctx = some u ∧ u ≠ "-" ∧ ':' ∉ u.toList

theorem Separable.unshared (h : mw.Separable ctx key) : mw.Unshared ctx key := by
  obtain ⟨hmw, hsep⟩ := h
  intro storageKey hkey ctx' key' hkey'
  cases ht : ctx.tenant with
  | none => simp [scopeKey, hmw, ht] at hkey
  | some t =>
    cases ht' : ctx'.tenant with
    | none => simp [scopeKey, hmw, ht'] at hkey'
    | some t' =>
      obtain ⟨htc, hkc, u, hu, hdash, huc⟩ := hsep t ht
      rw [scopeKey_tenant hmw ht, hu, Option.getD_some] at hkey
      rw [scopeKey_tenant hmw ht'] at hkey'
      have heq := Except.ok.inj (hkey'.trans hkey.symm)
      obtain ⟨h₁, h₂, h₃⟩ := join₃_inj htc huc hkc (scopeKey_tenant_inj heq)
      have hu' : (subject ctx').getD "-" = u := String.ext h₂
      refine ⟨congrArg some (String.ext h₁), ?_, String.ext h₃⟩
      rw [hu]
      cases hs : subject ctx' with
      | none =>
        rw [hs] at hu'
        exact absurd hu'.symm hdash
      | some u' =>
        rw [hs] at hu'
        exact congrArg some hu'

/-! ## Who is reached -/

/-- A text with `:` in it falls into a text before it and a text after it. -/
theorem exists_eq_of_colon {s : String} (h : ':' ∈ s.toList) : ∃ a b, s = a ++ ":" ++ b := by
  obtain ⟨x, y, hxy⟩ := List.append_of_mem h
  exact ⟨.ofList x, .ofList y, String.ext (by simp [hxy])⟩

theorem ne_append_colon (a b : String) : a ≠ a ++ ":" ++ b := by
  intro h
  have hlen := congrArg String.length h
  simp only [String.length_append] at hlen
  have hcolon : ":".length = 1 := rfl
  omega

/-- A request that has the storage key of an unshared one has its subject and its key. -/
theorem Unshared.of_eq (h : mw.Unshared ctx key) {storageKey : String}
    (hkey : mw.scopeKey ctx key = .ok storageKey)
    (hkey' : mw.scopeKey ctx' key' = mw.scopeKey ctx key) :
    ctx'.tenant = ctx.tenant ∧ subject ctx' = subject ctx ∧ key' = key :=
  h storageKey hkey ctx' key' (hkey'.trans hkey)

/-- The subject `-` is taken for no subject. -/
theorem scopeKey_dash (ht : ctx'.tenant = ctx.tenant)
    (hu : (subject ctx').getD "-" = (subject ctx).getD "-") :
    mw.scopeKey ctx' key = mw.scopeKey ctx key := by
  simp only [scopeKey, currentSubject_eq, ht, hu]

/-- An unshared request has a subject, which is not `-`. -/
theorem Unshared.subject_eq (h : mw.Unshared ctx key) {storageKey : String}
    (hkey : mw.scopeKey ctx key = .ok storageKey) : ∃ u, subject ctx = some u ∧ u ≠ "-" := by
  cases hs : subject ctx with
  | none =>
    have heq : mw.scopeKey (caller ctx.tenant (some "-")) key = mw.scopeKey ctx key :=
      scopeKey_dash rfl (by simp [hs])
    have hsub := (h.of_eq hkey heq).2.1
    simp [hs] at hsub
  | some u =>
    refine ⟨u, rfl, ?_⟩
    rintro rfl
    have heq : mw.scopeKey (caller ctx.tenant none) key = mw.scopeKey ctx key :=
      scopeKey_dash rfl (by simp [hs])
    have hsub := (h.of_eq hkey heq).2.1
    simp [hs] at hsub

/-- Where keys are not scoped by tenant, a caller without a subject reaches every storage key, by
sending it. -/
theorem not_unshared_of_untenanted (hmw : mw.tenancyEnabled = false) : ¬mw.Unshared ctx key := by
  intro h
  have hkey : mw.scopeKey ctx key = .ok _ := scopeKey_untenanted hmw
  obtain ⟨u, hu, -⟩ := h.subject_eq hkey
  have hsub := (h _ hkey (caller ctx.tenant none) _ (scopeKey_untenanted hmw)).2.1
  simp [hu] at hsub

theorem Unshared.separable (h : mw.Unshared ctx key) : mw.Separable ctx key := by
  cases hmw : mw.tenancyEnabled with
  | false => exact absurd h (not_unshared_of_untenanted hmw)
  | true =>
    refine ⟨hmw, fun t ht => ?_⟩
    have hkey : mw.scopeKey ctx key = .ok _ := scopeKey_tenant hmw ht
    obtain ⟨u, hu, hdash⟩ := h.subject_eq hkey
    rw [hu, Option.getD_some] at hkey
    -- a `:` inside a part is as good as one between two parts
    have hsplit : ∀ t' u' key', "idempotency:" ++ t' ++ ":" ++ u' ++ ":" ++ key' =
        "idempotency:" ++ t ++ ":" ++ u ++ ":" ++ key → t' = t ∧ u' = u ∧ key' = key := by
      intro t' u' key' heq
      have hkey' : mw.scopeKey (caller (some t') (some u')) key' = .ok _ := scopeKey_tenant hmw rfl
      rw [subject_caller, Option.getD_some, heq] at hkey'
      obtain ⟨h₁, h₂, h₃⟩ := h _ hkey _ _ hkey'
      rw [caller_tenant, ht] at h₁
      rw [subject_caller, hu] at h₂
      exact ⟨Option.some.inj h₁, Option.some.inj h₂, h₃⟩
    refine ⟨fun hc => ?_, fun hc => ?_, u, hu, hdash, fun hc => ?_⟩
    · obtain ⟨a, b, rfl⟩ := exists_eq_of_colon hc
      exact ne_append_colon a b
        (hsplit a (b ++ ":" ++ u) key (by simp [String.append_assoc])).1
    · obtain ⟨a, b, rfl⟩ := exists_eq_of_colon hc
      exact ne_append_colon u a
        (hsplit t (u ++ ":" ++ a) b (by simp [String.append_assoc])).2.1.symm
    · obtain ⟨a, b, rfl⟩ := exists_eq_of_colon hc
      exact ne_append_colon a b
        (hsplit t a (b ++ ":" ++ key) (by simp [String.append_assoc])).2.1

/-- **Storage keys of different callers**, exactly when they differ: no other caller can have the
storage key of a request if and only if its parts can be told apart. -/
theorem scopeKey_unshared_iff (mw : IdempotencyMiddleware) (ctx : RequestContext) (key : String) :
    mw.Unshared ctx key ↔ mw.Separable ctx key :=
  ⟨Unshared.separable, Separable.unshared⟩

/-! ## A response that reaches another caller -/

/-- `ordersRequest` with the key that is given, made by `ctx`. -/
def ordersBy (m : InMemoryIdempotencyStore) (ctx : RequestContext) (key : String) :
    List HttpEntry × Except Exc Reply × InMemoryIdempotencyStore :=
  let request := { ordersRequest with headers := [("idempotency-key", key)] }
  (dispatch {} ordersLib request ctx).run.run InMemoryIdempotencyStore.contract.exec m answered

/-- **A response served to another caller.** The user `u` has sent a request with the key `k`, and
its response is stored. A caller without a subject sends the same request with the key
`idempotency:-:u:k`, and is served the response of `u`. With tenants it is the same for the
callers `b:c` and `b` of one tenant. -/
theorem stored_response_reached :
    ((ordersBy {} (caller none (some "u")) "k").2.1 =
        .ok (.built [104, 105] 201 .empty none) ∧
      (ordersBy (ordersBy {} (caller none (some "u")) "k").2.2 {} "idempotency:-:u:k").2.1 =
        .ok (.built [104, 105] 201 (.set .empty "Idempotency-Replayed" "true") none) ∧
      ¬Unshared {} (caller none (some "u")) "k") ∧
    ¬Unshared { tenancyEnabled := true } (caller (some "a") (some "b:c")) "k" := by
  refine ⟨⟨by decide +kernel, by decide +kernel, fun h => ?_⟩, fun h => ?_⟩
  · have hsub := (h "idempotency:-:u:k" (by decide +kernel) {} "idempotency:-:u:k" rfl).2.1
    cases hsub
  · have hsub := (h "idempotency:a:b:c:k" (by decide +kernel) (caller (some "a") (some "b")) "c:k"
      (by decide +kernel)).2.1
    exact absurd hsub (by decide)

end IdempotencyMiddleware

end Varco
