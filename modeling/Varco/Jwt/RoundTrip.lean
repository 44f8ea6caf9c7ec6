import Mathlib.Tactic.Ring
import Varco.Jwt.Parser

/-!
# Tokens through their claims

What `JwtParser._from_raw_claims` makes of the claims that a token is written as
(`fromRawClaims_toClaims`), and when this is the token again (`claims_survive_iff`). The actor is
written as `act` and looked for as `actor`; and `tenant_id` and `act`, which are not reserved, are
among the extra claims of the token that is read.
-/

namespace Varco

open List

/-! ## Lists and sets -/

/-- What is read of each written element is what is read of the list. -/
theorem mapM_map_ok {α β γ : Type} {f : β → Except PyException γ} {e : α → β} {g : α → γ}
    {l : List α} (h : ∀ x ∈ l, f (e x) = .ok (g x)) : (l.map e).mapM f = .ok (l.map g) := by
  induction l with
  | nil => rfl
  | cons x l ih =>
    rw [map_cons, mapM_cons, h x mem_cons_self,
      ih fun y hy => h y (mem_cons_of_mem _ hy)]
    rfl

theorem frozenset_sortedStrings (values : Finset String) :
    frozenset (sortedStrings values) = .ok values := by
  have hstrings : ((values.sort (· ≤ ·)).map Json.str).mapM Json.asStr =
      .ok ((values.sort (· ≤ ·)).map id) := mapM_map_ok fun s _ => rfl
  rw [frozenset, sortedStrings, Json.iterate]
  change (((values.sort (· ≤ ·)).map Json.str).mapM Json.asStr >>= _) = _
  rw [hstrings, map_id]
  exact congrArg Except.ok (Finset.sort_toFinset ..)

theorem readAudience_toClaim (aud : Option Audience) :
    JwtParser.readAudience ((aud.map Audience.toClaim).getD .null) = .ok aud := by
  match aud with
  | none => rfl
  | some (.one aud) => rfl
  | some (.many auds) =>
    change (frozenset (sortedStrings auds)).map _ = _
    rw [frozenset_sortedStrings]
    rfl

/-! ## Grants -/

namespace JwtParser

def grantFields (g : ResourceGrant) : List (String × Json) :=
  [("resource", g.resource), ("actions", sortedStrings (g.actions.image Action.value))]

theorem readGrant_fields (g : ResourceGrant) : readGrant (grantFields g) = .ok g := by
  obtain ⟨resource, actions⟩ := g
  let action (s : String) : Action := (Action.ofValue s).toOption.getD .create
  have hactions : (((actions.image Action.value).sort (· ≤ ·)).map Json.str).mapM readAction =
      .ok (((actions.image Action.value).sort (· ≤ ·)).map action) := by
    refine mapM_map_ok fun s hs => ?_
    obtain ⟨a, -, rfl⟩ := Finset.mem_image.mp ((Finset.mem_sort _).mp hs)
    change Action.ofValue a.value = .ok ((Action.ofValue a.value).toOption.getD .create)
    rw [Action.ofValue_value]
    rfl
  have hset : (((actions.image Action.value).sort (· ≤ ·)).map action).toFinset = actions := by
    ext a
    rw [mem_toFinset, mem_map]
    constructor
    · rintro ⟨s, hs, rfl⟩
      obtain ⟨a, ha, rfl⟩ := Finset.mem_image.mp ((Finset.mem_sort _).mp hs)
      simpa [action, Except.toOption] using ha
    · intro ha
      refine ⟨a.value, (Finset.mem_sort _).mpr (Finset.mem_image_of_mem _ ha), ?_⟩
      simp [action, Except.toOption]
  change ((((actions.image Action.value).sort (· ≤ ·)).map Json.str).mapM readAction >>= _) = _
  rw [hactions]
  change Except.ok (ResourceGrant.mk resource _) = _
  rw [hset]

theorem normalizeGrants_toClaim (grants : List ResourceGrant) :
    normalizeGrants (.arr (grants.map ResourceGrant.toClaim)) = .ok (grants.map grantFields) := by
  have h : (grants.zipIdx.map fun g => (g.1.toClaim, g.2)).mapM
      (fun item => normalizeGrant item.2 item.1) =
        .ok (grants.zipIdx.map fun g => grantFields g.1) :=
    mapM_map_ok fun g _ => rfl
  rw [normalizeGrants, zipIdx_map]
  have hfst : (grants.zipIdx.map fun g => grantFields g.1) = grants.map grantFields := by
    change grants.zipIdx.map (grantFields ∘ Prod.fst) = _
    rw [← map_map, zipIdx_map_fst]
  rw [← hfst, ← h]
  rfl

theorem mapM_readGrant (grants : List ResourceGrant) :
    (grants.map grantFields).mapM readGrant = .ok grants := by
  have h : (grants.map grantFields).mapM readGrant = .ok (grants.map id) :=
    mapM_map_ok fun g _ => readGrant_fields g
  rwa [map_id] at h

end JwtParser

/-! ## Times -/

/-- A `datetime` in UTC, on a whole second. -/
inductive EventTime.WholeSecondUtc : EventTime → Prop
  | mk (seconds : ℤ) : WholeSecondUtc (.aware (unixEpoch + seconds * 1000000) 0)

theorem fromUtcTimestamp_toUtcTimestamp {dt : EventTime} (h : dt.WholeSecondUtc) :
    fromUtcTimestamp (.int (toUtcTimestamp dt)) = .ok dt := by
  obtain ⟨seconds⟩ := h
  have hseconds : toUtcTimestamp (.aware (unixEpoch + seconds * 1000000) 0) = seconds := by
    simp only [toUtcTimestamp]
    rw [show (unixEpoch + seconds * 1000000 - 0 * 60000000 - unixEpoch : ℤ) = seconds * 1000000 by
      ring]
    exact Int.mul_tdiv_cancel _ (by norm_num)
  rw [hseconds]
  rfl

/-! ## Claims -/

namespace JsonWebToken

variable {t : JsonWebToken} {k : String}

def ctx (t : JsonWebToken) : Auth.AuthContext := t.authCtx.getD {}

/-- The claims of a token by their names, in the order in which they are written. -/
def claimTable (t : JsonWebToken) : List (String × Option Json) :=
  [("sub", t.sub.notNone), ("iss", t.iss.notNone), ("aud", t.aud.map Audience.toClaim),
    ("exp", t.exp.map fun dt => .int (toUtcTimestamp dt)),
    ("iat", t.iat.map fun dt => .int (toUtcTimestamp dt)),
    ("nbf", t.nbf.map fun dt => .int (toUtcTimestamp dt)),
    ("jti", t.jti.notNone), ("token_type", t.tokenType.notNone),
    ("roles", Auth.AuthContext.rolesClaim t.ctx.roles),
    ("scopes", Auth.AuthContext.rolesClaim t.ctx.scopes),
    ("grants", t.ctx.grantsClaim), ("tenant_id", t.ctx.metadata.get? "tenant_id"),
    ("act", t.ctx.metadata.get? "actor")]

/-- The claim that is written under a name, apart from the extra claims. -/
def claim (t : JsonWebToken) (k : String) : Option Json := (t.claimTable.lookup k).join

theorem get?_toClaims (t : JsonWebToken) (k : String) :
    t.toClaims.get? k = (t.extraClaims.get? k).or (t.claim k) := by
  have h : t.toClaims = JsonObject.update
      (t.claimTable.foldl (fun d e => d.setSome e.1 e.2) .empty) t.extraClaims.entries := by
    unfold toClaims claimTable ctx
    cases t.authCtx <;> rfl
  have hnodup : (t.claimTable.map Prod.fst).Nodup := by
    change ["sub", "iss", "aud", "exp", "iat", "nbf", "jti", "token_type", "roles", "scopes",
      "grants", "tenant_id", "act"].Nodup
    decide
  rw [h, JsonObject.get?_update, Dict.get?_foldl_setSome _ hnodup, Dict.get?_empty, Option.or_none]
  rfl

theorem get?_reserved (hextra : ∀ k ∈ reservedClaimKeys, t.extraClaims.get? k = none)
    (hk : k ∈ reservedClaimKeys) : t.toClaims.get? k = t.claim k := by
  rw [get?_toClaims, hextra k hk, Option.none_or]

theorem claim_of_not_reserved (hk : k ∉ reservedClaimKeys) :
    t.claim k = if k = "tenant_id" then t.ctx.metadata.get? "tenant_id"
      else if k = "act" then t.ctx.metadata.get? "actor" else none := by
  have hne : ∀ k' ∈ reservedClaimKeys, (k == k') = false := by
    intro k' hk'
    rw [beq_eq_false_iff_ne]
    rintro rfl
    exact hk hk'
  simp only [reservedClaimKeys, forall_mem_cons] at hne
  obtain ⟨h₁, h₂, h₃, h₄, h₅, h₆, h₇, h₈, h₉, h₁₀, h₁₁, -⟩ := hne
  simp only [claim, claimTable, lookup_cons, h₁, h₂, h₃, h₄, h₅, h₆, h₇, h₈, h₉, h₁₀, h₁₁]
  by_cases htenant : k = "tenant_id"
  · simp [htenant]
  · by_cases hact : k = "act"
    · simp [hact]
    · rw [beq_eq_false_iff_ne.mpr htenant, beq_eq_false_iff_ne.mpr hact, if_neg htenant,
        if_neg hact]
      rfl

/-! ## The token that is read -/

/-- What `_build_auth_ctx` makes of the claims of a token. -/
def received (t : JsonWebToken) : Option Auth.AuthContext :=
  let tenantId := ((t.extraClaims.get? "tenant_id").or (t.ctx.metadata.get? "tenant_id")).bind
    Json.notNone
  let actor := (t.extraClaims.get? "actor").bind Json.notNone
  if t.ctx.roles = ∅ ∧ t.ctx.scopes = ∅ ∧ t.ctx.grants = [] ∧ tenantId = none ∧ actor = none then
    none
  else some {
    userId := (t.extraClaims.get? "user_id").getD t.sub
    roles := t.ctx.roles
    scopes := t.ctx.scopes
    grants := t.ctx.grants
    metadata := (Dict.empty.setSome "tenant_id" tenantId).setSome "actor" actor }

theorem frozenset_rolesClaim (roles : Finset String) :
    frozenset ((Auth.AuthContext.rolesClaim roles).getD (.arr [])) = .ok roles := by
  unfold Auth.AuthContext.rolesClaim
  split_ifs with h
  · rw [h]
    rfl
  · exact frozenset_sortedStrings roles

theorem truthy_rolesClaim (roles : Finset String) :
    ((Auth.AuthContext.rolesClaim roles).getD (.arr [])).truthy = !decide (roles = ∅) := by
  unfold Auth.AuthContext.rolesClaim
  split_ifs with h
  · simp [h, Json.truthy]
  · have hlength : (roles.sort (· ≤ ·)).length ≠ 0 := by
      rw [Finset.length_sort]
      exact Finset.card_ne_zero_of_mem (Finset.nonempty_iff_ne_empty.mpr h).choose_spec
    simp only [Option.getD_some, sortedStrings, Json.truthy, h, decide_false, Bool.not_false]
    rw [Bool.not_eq_true', isEmpty_eq_false_iff]
    intro hnil
    rw [map_eq_nil_iff] at hnil
    rw [hnil] at hlength
    exact hlength rfl

theorem normalizeGrants_grantsClaim (ctx : Auth.AuthContext) :
    JwtParser.normalizeGrants (ctx.grantsClaim.getD (.arr [])) =
      .ok (ctx.grants.map JwtParser.grantFields) := by
  unfold Auth.AuthContext.grantsClaim
  split_ifs with h
  · rw [isEmpty_iff.mp h]
    rfl
  · exact JwtParser.normalizeGrants_toClaim ctx.grants

theorem getD_null_notNone (value : Option Json) :
    (value.getD .null).notNone = value.bind Json.notNone := by
  cases value <;> rfl

/-- **The context that is read of the claims of a token.** -/
theorem buildAuthCtx_toClaims (hextra : ∀ k ∈ reservedClaimKeys, t.extraClaims.get? k = none) :
    JwtParser.buildAuthCtx t.toClaims = .ok t.received := by
  have hroles : t.toClaims.get? "roles" = Auth.AuthContext.rolesClaim t.ctx.roles :=
    (get?_reserved hextra (by decide)).trans rfl
  have hscopes : t.toClaims.get? "scopes" = Auth.AuthContext.rolesClaim t.ctx.scopes :=
    (get?_reserved hextra (by decide)).trans rfl
  have hgrants : t.toClaims.get? "grants" = t.ctx.grantsClaim :=
    (get?_reserved hextra (by decide)).trans rfl
  have hsub : t.toClaims.get? "sub" = t.sub.notNone :=
    (get?_reserved hextra (by decide)).trans rfl
  have htenant : t.toClaims.get? "tenant_id" =
      (t.extraClaims.get? "tenant_id").or (t.ctx.metadata.get? "tenant_id") := by
    rw [get?_toClaims]
    rfl
  have hactor : t.toClaims.get? "actor" = t.extraClaims.get? "actor" := by
    rw [get?_toClaims]
    exact Option.or_none
  have huser : t.toClaims.get? "user_id" = t.extraClaims.get? "user_id" := by
    rw [get?_toClaims]
    exact Option.or_none
  have hread : (t.ctx.grants.map JwtParser.grantFields).mapM JwtParser.readGrant =
      .ok t.ctx.grants := JwtParser.mapM_readGrant _
  unfold JwtParser.buildAuthCtx received
  simp only [hroles, hscopes, hgrants, hsub, htenant, hactor, huser, normalizeGrants_grantsClaim,
    getD_null_notNone, truthy_rolesClaim, frozenset_rolesClaim, Json.getD_notNone]
  generalize ((t.extraClaims.get? "tenant_id").or (t.ctx.metadata.get? "tenant_id")).bind
    Json.notNone = tenantId
  generalize (t.extraClaims.get? "actor").bind Json.notNone = actor
  have hempty : (!!decide (t.ctx.roles = ∅) && !!decide (t.ctx.scopes = ∅) &&
      (t.ctx.grants.map JwtParser.grantFields).isEmpty && tenantId.isNone && actor.isNone) =
        decide (t.ctx.roles = ∅ ∧ t.ctx.scopes = ∅ ∧ t.ctx.grants = [] ∧ tenantId = none ∧
          actor = none) := by
    rw [Bool.eq_iff_iff]
    simp [and_assoc]
  by_cases h : t.ctx.roles = ∅ ∧ t.ctx.scopes = ∅ ∧ t.ctx.grants = [] ∧ tenantId = none ∧
      actor = none
  · rw [decide_eq_true h] at hempty
    rw [if_pos h]
    simp only [bind, Except.bind, hempty, if_true]
    rfl
  · rw [decide_eq_false h] at hempty
    rw [if_neg h]
    simp only [bind, Except.bind, hempty, Bool.false_eq_true, if_false, hread]
    rfl

theorem readTimestamp_toClaims (hextra : ∀ k ∈ reservedClaimKeys, t.extraClaims.get? k = none)
    (hk : k ∈ reservedClaimKeys) {dt : Option EventTime}
    (hclaim : t.claim k = dt.map fun dt => .int (toUtcTimestamp dt))
    (h : ∀ x, dt = some x → x.WholeSecondUtc) : readTimestamp t.toClaims k = .ok dt := by
  rw [readTimestamp, get?_reserved hextra hk, hclaim]
  cases dt with
  | none => rfl
  | some x =>
    change (fromUtcTimestamp (.int (toUtcTimestamp x))).map some = _
    rw [fromUtcTimestamp_toUtcTimestamp (h x rfl)]
    rfl

/-- A token as it is issued: times in UTC on whole seconds, no extra claim with a reserved name, and
a context, if there is one, of the subject, with metadata for a tenant and an actor only, and with
something in it. -/
structure WellFormed (t : JsonWebToken) : Prop where
  exp : ∀ dt, t.exp = some dt → dt.WholeSecondUtc
  iat : ∀ dt, t.iat = some dt → dt.WholeSecondUtc
  nbf : ∀ dt, t.nbf = some dt → dt.WholeSecondUtc
  extraClaims : ∀ k ∈ reservedClaimKeys, t.extraClaims.get? k = none
  userId : ∀ ctx, t.authCtx = some ctx → ctx.userId = t.sub
  metadata : ∀ ctx, t.authCtx = some ctx → ∀ k v, ctx.metadata.get? k = some v →
    k = "tenant_id" ∨ k = "actor"
  present : ∀ ctx, t.authCtx = some ctx → ctx.roles ≠ ∅ ∨ ctx.scopes ≠ ∅ ∨ ctx.grants ≠ [] ∨
    ctx.metadata.get? "tenant_id" ≠ none ∨ ctx.metadata.get? "actor" ≠ none

/-- **The token that is read of the claims of a token.** Only its context and its extra claims may
differ. -/
theorem fromRawClaims_toClaims (h : t.WellFormed) :
    JwtParser.fromRawClaims t.toClaims = .ok { t with
      authCtx := t.received
      extraClaims := t.toClaims.filterKeys fun k => !reservedClaimKeys.contains k } := by
  have hget {k : String} (hk : k ∈ reservedClaimKeys) : t.toClaims.get? k = t.claim k :=
    get?_reserved h.extraClaims hk
  have hsub : t.toClaims.get? "sub" = t.sub.notNone := hget (by decide)
  have hiss : t.toClaims.get? "iss" = t.iss.notNone := hget (by decide)
  have haud : t.toClaims.get? "aud" = t.aud.map Audience.toClaim := hget (by decide)
  have hjti : t.toClaims.get? "jti" = t.jti.notNone := hget (by decide)
  have htype : t.toClaims.get? "token_type" = t.tokenType.notNone := hget (by decide)
  have hexp : readTimestamp t.toClaims "exp" = .ok t.exp :=
    readTimestamp_toClaims h.extraClaims (by decide) rfl h.exp
  have hiat : readTimestamp t.toClaims "iat" = .ok t.iat :=
    readTimestamp_toClaims h.extraClaims (by decide) rfl h.iat
  have hnbf : readTimestamp t.toClaims "nbf" = .ok t.nbf :=
    readTimestamp_toClaims h.extraClaims (by decide) rfl h.nbf
  unfold JwtParser.fromRawClaims
  simp only [hexp, hiat, hnbf, haud, readAudience_toClaim, buildAuthCtx_toClaims h.extraClaims,
    hsub, hiss, hjti, htype, Json.getD_notNone, bind, Except.bind]
  rfl

end JsonWebToken

/-! ## When a token survives -/

/-- Two contexts are equal, the metadata in whatever order. -/
structure Auth.AuthContext.Same (c c' : Auth.AuthContext) : Prop where
  userId : c.userId = c'.userId
  roles : c.roles = c'.roles
  scopes : c.scopes = c'.scopes
  grants : c.grants = c'.grants
  metadata : ∀ k, c.metadata.get? k = c'.metadata.get? k

namespace JsonWebToken

/-- Two tokens are equal in every field, the dictionaries in whatever order. -/
structure Same (t t' : JsonWebToken) : Prop where
  sub : t.sub = t'.sub
  iss : t.iss = t'.iss
  aud : t.aud = t'.aud
  exp : t.exp = t'.exp
  iat : t.iat = t'.iat
  nbf : t.nbf = t'.nbf
  jti : t.jti = t'.jti
  tokenType : t.tokenType = t'.tokenType
  authCtx : Option.Rel Auth.AuthContext.Same t.authCtx t'.authCtx
  extraClaims : ∀ k, t.extraClaims.get? k = t'.extraClaims.get? k

/-- The extra claims say of the tenant and the actor what the context says, and nothing else of the
user. -/
def Carried (t : JsonWebToken) : Prop :=
  let tenantId := (t.extraClaims.get? "tenant_id").bind Json.notNone
  let actor := (t.extraClaims.get? "actor").bind Json.notNone
  match t.authCtx with
  | none => tenantId = none ∧ actor = none
  | some ctx =>
    ctx.metadata.get? "tenant_id" = tenantId ∧ ctx.metadata.get? "actor" = actor ∧
      (actor ≠ none → t.extraClaims.get? "act" ≠ none) ∧
      ∀ userId, t.extraClaims.get? "user_id" = some userId → userId = t.sub

variable {t : JsonWebToken}

theorem get?_metadata (tenantId actor : Option Json) (k : String) :
    (((Dict.empty : JsonObject).setSome "tenant_id" tenantId).setSome "actor" actor).get? k =
      if k = "actor" then actor else if k = "tenant_id" then tenantId else none := by
  rw [Dict.get?_setSome, Dict.get?_setSome, Dict.get?_empty, Option.or_none]
  split_ifs with h₁ h₂
  · subst h₁
    simp at h₂
  · rw [Option.or_none]
  · rfl
  · rfl

/-- The extra claims are those of the token just if what else is written is among them. -/
theorem extraClaims_same_iff (h : ∀ k ∈ reservedClaimKeys, t.extraClaims.get? k = none) :
    (∀ k, (t.toClaims.filterKeys fun k => !reservedClaimKeys.contains k).get? k =
      t.extraClaims.get? k) ↔
      (t.ctx.metadata.get? "tenant_id" ≠ none → t.extraClaims.get? "tenant_id" ≠ none) ∧
        (t.ctx.metadata.get? "actor" ≠ none → t.extraClaims.get? "act" ≠ none) := by
  have hor {x y : Option Json} : x.or y = x ↔ (y ≠ none → x ≠ none) := by
    cases x <;> cases y <;> simp
  constructor
  · intro hall
    constructor
    · have := hall "tenant_id"
      rw [Dict.get?_filterKeys, if_pos (by decide), get?_toClaims, hor] at this
      exact this
    · have := hall "act"
      rw [Dict.get?_filterKeys, if_pos (by decide), get?_toClaims, hor] at this
      exact this
  · rintro ⟨htenant, hact⟩ k
    rw [Dict.get?_filterKeys]
    by_cases hk : k ∈ reservedClaimKeys
    · rw [if_neg (by simpa using hk), h k hk]
    · rw [if_pos (by simpa using hk), get?_toClaims, hor, claim_of_not_reserved hk]
      split_ifs with h₁ h₂
      · rw [h₁]
        exact htenant
      · rw [h₂]
        exact hact
      · intro hne
        exact absurd rfl hne

/-- The tenant of the extra claims is that of the context. -/
theorem tenant_iff {x m : Option Json} :
    ((x.or m).bind Json.notNone = m ∧ (m ≠ none → x ≠ none)) ↔ m = x.bind Json.notNone := by
  cases x with
  | some x =>
    rw [Option.some_or]
    exact ⟨fun h => h.1.symm, fun h => ⟨h.symm, fun _ => Option.some_ne_none x⟩⟩
  | none =>
    rw [Option.none_or]
    constructor
    · rintro ⟨-, h⟩
      by_contra hm
      exact h hm rfl
    · rintro rfl
      exact ⟨rfl, fun h => h⟩

theorem received_of_none (h : t.authCtx = none) :
    t.received = none ↔ (t.extraClaims.get? "tenant_id").bind Json.notNone = none ∧
      (t.extraClaims.get? "actor").bind Json.notNone = none := by
  have hctx : t.ctx = {} := by rw [ctx, h, Option.getD_none]
  unfold received
  rw [hctx]
  dsimp only
  rw [Dict.get?_empty, Option.or_none]
  simp

/-- A context with something in it is read as one that is equal, just if the tenant, the actor and
the user are those of the context. -/
theorem received_same_iff {c : Auth.AuthContext} (h : t.WellFormed) (hc : t.authCtx = some c) :
    Option.Rel Auth.AuthContext.Same t.received (some c) ↔
      ((t.extraClaims.get? "tenant_id").or (c.metadata.get? "tenant_id")).bind Json.notNone =
        c.metadata.get? "tenant_id" ∧
      (t.extraClaims.get? "actor").bind Json.notNone = c.metadata.get? "actor" ∧
      ∀ userId, t.extraClaims.get? "user_id" = some userId → userId = t.sub := by
  have hctx : t.ctx = c := by rw [ctx, hc, Option.getD_some]
  have huser := h.userId c hc
  unfold received
  rw [hctx]
  generalize ((t.extraClaims.get? "tenant_id").or (c.metadata.get? "tenant_id")).bind
    Json.notNone = tenantId
  generalize (t.extraClaims.get? "actor").bind Json.notNone = actor
  dsimp only
  constructor
  · intro hrel
    split_ifs at hrel with hempty
    · cases hrel
    · cases hrel with
      | some hsame =>
        have htenant := hsame.metadata "tenant_id"
        have hactor := hsame.metadata "actor"
        rw [get?_metadata] at htenant hactor
        refine ⟨by simpa using htenant, by simpa using hactor, fun userId hextra => ?_⟩
        have := hsame.userId
        rw [hextra, Option.getD_some, huser] at this
        exact this
  · rintro ⟨htenant, hactor, hextra⟩
    rw [if_neg]
    · refine .some ⟨?_, rfl, rfl, rfl, fun k => ?_⟩
      · rw [huser]
        cases huserId : t.extraClaims.get? "user_id" with
        | none => rfl
        | some userId => exact hextra userId huserId
      · rw [get?_metadata]
        split_ifs with h₁ h₂
        · rw [h₁]
          exact hactor
        · rw [h₂]
          exact htenant
        · cases hk : c.metadata.get? k with
          | none => rfl
          | some v => exact absurd (h.metadata c hc k v hk) (by simp [h₁, h₂])
    · rintro ⟨hroles, hscopes, hgrants, ht, ha⟩
      rcases h.present c hc with hp | hp | hp | hp | hp
      · exact hp hroles
      · exact hp hscopes
      · exact hp hgrants
      · exact hp (htenant ▸ ht)
      · exact hp (hactor ▸ ha)

/-- **A token survives its claims just if it is `Carried`** by its extra claims. -/
theorem claims_survive_iff (h : t.WellFormed) :
    (∃ t', JwtParser.fromRawClaims t.toClaims = .ok t' ∧ t'.Same t) ↔ t.Carried := by
  rw [fromRawClaims_toClaims h]
  have hsame : (∃ t', (.ok { t with
      authCtx := t.received
      extraClaims := t.toClaims.filterKeys fun k => !reservedClaimKeys.contains k } :
        Except PyException JsonWebToken) = .ok t' ∧ t'.Same t) ↔
      Option.Rel Auth.AuthContext.Same t.received t.authCtx ∧
        ∀ k, (t.toClaims.filterKeys fun k => !reservedClaimKeys.contains k).get? k =
          t.extraClaims.get? k := by
    constructor
    · rintro ⟨t', ht, hs⟩
      cases ht
      exact ⟨hs.authCtx, hs.extraClaims⟩
    · rintro ⟨hctx, hextra⟩
      exact ⟨_, rfl, rfl, rfl, rfl, rfl, rfl, rfl, rfl, rfl, hctx, hextra⟩
  rw [hsame, extraClaims_same_iff h.extraClaims, Carried]
  cases hc : t.authCtx with
  | none =>
    have hctx : t.ctx = {} := by rw [ctx, hc, Option.getD_none]
    have hrel : Option.Rel Auth.AuthContext.Same t.received none ↔ t.received = none := by
      cases t.received with
      | none => exact iff_of_true .none rfl
      | some c => exact iff_of_false (fun h => by cases h) (Option.some_ne_none c)
    rw [hrel, received_of_none hc, hctx]
    dsimp only
    rw [and_iff_left ⟨fun h => absurd rfl h, fun h => absurd rfl h⟩]
  | some c =>
    have hctx : t.ctx = c := by rw [ctx, hc, Option.getD_some]
    rw [received_same_iff h hc, hctx]
    dsimp only
    rw [← tenant_iff]
    constructor
    · rintro ⟨⟨htenant, hactor, huser⟩, hin, hact⟩
      exact ⟨⟨htenant, hin⟩, hactor.symm, fun ha => hact (hactor ▸ ha), huser⟩
    · rintro ⟨⟨htenant, hin⟩, hactor, hact, huser⟩
      exact ⟨⟨htenant, hactor.symm, huser⟩, hin, fun hm => hact (hactor ▸ hm)⟩

def editor : JsonWebToken where
  sub := .str "usr_1"
  exp := some (.aware (unixEpoch + 1700000000 * 1000000) 0)
  authCtx := some {
    userId := .str "usr_1"
    roles := {"editor"}
    metadata := Dict.empty.set "tenant_id" (.str "acme") }
  extraClaims := Dict.empty.set "tenant_id" (.str "acme")

theorem claims_survive_editor :
    ∃ t', JwtParser.fromRawClaims editor.toClaims = .ok t' ∧ t'.Same editor := by
  refine (claims_survive_iff ⟨?_, ?_, ?_, ?_, ?_, ?_, ?_⟩).mpr
    ⟨rfl, rfl, fun h => absurd rfl h, fun _ h => by cases h⟩
  · rintro dt hdt
    cases hdt
    exact .mk 1700000000
  · exact fun _ h => by cases h
  · exact fun _ h => by cases h
  · intro k hk
    have hne : ∀ k ∈ reservedClaimKeys, k ≠ "tenant_id" := by decide
    exact (Dict.get?_set ..).trans (if_neg (hne k hk))
  · rintro c hc
    cases hc
    rfl
  · rintro c hc k v hk
    cases hc
    by_contra hne
    rw [Dict.get?_set, if_neg fun h => hne (.inl h)] at hk
    cases hk
  · rintro c hc
    cases hc
    exact .inl (Finset.singleton_ne_empty _)

def delegated : JsonWebToken where
  sub := .str "usr_1"
  authCtx := some {
    userId := .str "usr_1"
    metadata := Dict.empty.set "actor" (.str "usr_2") }

/-- The actor is lost, and the context with it. -/
theorem delegated_lost :
    ¬∃ t', JwtParser.fromRawClaims delegated.toClaims = .ok t' ∧ t'.Same delegated := by
  rintro ⟨t', ht, hsame⟩
  have hread : JwtParser.fromRawClaims delegated.toClaims = .ok { delegated with
      authCtx := none
      extraClaims := Dict.empty.set "act" (.str "usr_2") } := by
    rfl
  rw [hread] at ht
  cases ht
  cases hsame.authCtx

end JsonWebToken

end Varco
