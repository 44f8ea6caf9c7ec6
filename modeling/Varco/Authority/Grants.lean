import Varco.Jwt.Token

/-!
# What grants allow

`GrantBasedAuthorizer` and `PolicyEngineAuthorizer` of `varco_core.auth`, with `can` and
`RequestMapper`. Instances are looked up under their own key alone, although a type-level grant is
documented to apply to them; and a caller without a `user_id` is the subject `"anonymous"`, which is
also that of a user of this name (`Grants.meets_iff`).
-/

namespace Varco.Grants

open List

/-- An action: a member of a `StrEnum`, with its `repr()`. -/
structure Action where
  value : String
  repr : String

structure ResourceGrant where
  resource : String
  actions : List String

/-- `AuthContext`, as far as authorizers look at it. -/
structure AuthContext where
  userId : Option String
  grants : List ResourceGrant

/-- An entity class, with `__name__.lower()`: an identifier has no colon. -/
structure EntityClass where
  name : String
  lower : String
  noColon : ':' ∉ lower.toList

/-- `Resource`: of the entity, `str(entity.pk)`. -/
structure Resource where
  entityType : EntityClass
  entity : Option String

/-! ## Authorizers -/

def defaultResourceKey (entityType : EntityClass) (entity : Option String) : String :=
  let base := entityType.lower ++ "s"
  match entity with
  | none => base
  | some pk => base ++ ":" ++ pk

/-- The key of a resource. -/
def Resource.key (resource : Resource) : String :=
  defaultResourceKey resource.entityType resource.entity

/-- `resource in {"*", resource_key}` -/
def isCandidate (resourceKey : String) (grant : ResourceGrant) : Bool :=
  grant.resource = "*" || grant.resource = resourceKey

def AuthContext.can (ctx : AuthContext) (action : Action) (resourceKey : String) : Bool :=
  ctx.grants.any fun grant => isCandidate resourceKey grant && grant.actions.contains action.value

structure ServiceAuthorizationError where
  operation : String
  entityType : EntityClass
  reason : String

/-- `repr(user_id)` -/
def reprUser : Option String → String
  | none => "None"
  | some userId => pyRepr userId

/-- `GrantBasedAuthorizer.authorize` -/
def authorize (ctx : AuthContext) (action : Action) (resource : Resource) :
    Except ServiceAuthorizationError Unit :=
  if !ctx.can action resource.key then
    .error ⟨action.value, resource.entityType,
      s!"user_id={reprUser ctx.userId} has no grant for " ++
        s!"action={action.repr} on resource={pyRepr resource.key}"⟩
  else .ok ()

/-- `EnforcementRequest`, without the attributes; `domain` is `None` by default. -/
structure EnforcementRequest where
  subject : String
  object : String
  action : String

def subjectFor (ctx : AuthContext) : String := ctx.userId.getD "anonymous"

def toRequest (ctx : AuthContext) (action : Action) (resource : Resource) : EnforcementRequest :=
  ⟨subjectFor ctx, resource.key, action.value⟩

/-! ## What is asked of them -/

variable {ctx ctx' : AuthContext} {action : Action} {resource other : Resource}
  {grant : ResourceGrant}

/-- The authorizer allows the action. -/
def Allows (ctx : AuthContext) (action : Action) (resource : Resource) : Prop :=
  authorize ctx action resource = .ok ()

/-- A grant contains the action, for one of the keys. -/
def Granted (ctx : AuthContext) (action : Action) (keys : List String) : Prop :=
  ∃ grant ∈ ctx.grants, action.value ∈ grant.actions ∧ grant.resource ∈ keys

/-- The type-level key of a resource. -/
def Resource.typeKey (resource : Resource) : String := defaultResourceKey resource.entityType none

/-- A context with one more grant. -/
def Adds (grant : ResourceGrant) (ctx ctx' : AuthContext) : Prop :=
  ∃ before after, ctx.grants = before ++ after ∧ ctx'.grants = before ++ grant :: after

/-- Rights on the other resource are none on this one: it is of another class, or an instance that
this one is not. -/
def Foreign (other resource : Resource) : Prop :=
  other.entityType.lower ≠ resource.entityType.lower ∨
    ∃ pk, other.entity = some pk ∧ resource.entity ≠ some pk

/-- **What is asked of the authorizers**: the one allows what the grants for the wildcard, the class
and the instance allow, no less with one more grant, and no more with one for another resource; the
other asks about a subject that no other caller has. -/
structure Meets (ctx : AuthContext) (action : Action) (resource : Resource) : Prop where
  granted : Allows ctx action resource ↔ Granted ctx action ["*", resource.typeKey, resource.key]
  monotone : ∀ grant ctx', Adds grant ctx ctx' → Allows ctx action resource →
    Allows ctx' action resource
  foreign : ∀ grant ctx' other, Adds grant ctx ctx' → Foreign other resource →
    grant.resource = other.key → (Allows ctx' action resource ↔ Allows ctx action resource)
  subject : ∀ (caller : AuthContext) (action' : Action) (resource' : Resource),
    caller.userId ≠ ctx.userId →
      (toRequest caller action' resource').subject ≠ (toRequest ctx action resource).subject

/-! ## Keys -/

theorem toList_defaultResourceKey (c : EntityClass) (entity : Option String) :
    (defaultResourceKey c entity).toList =
      c.lower.toList ++ 's' :: entity.elim [] fun pk => ':' :: pk.toList := by
  cases entity <;> simp [defaultResourceKey]

/-- The text before the colon is that of the class. -/
theorem takeWhile_key (resource : Resource) :
    resource.key.toList.takeWhile (· != ':') = resource.entityType.lower.toList ++ ['s'] := by
  have hclass : ∀ ch ∈ resource.entityType.lower.toList, (ch != ':') = true := by
    intro ch hch
    have hne : ch ≠ ':' := by
      rintro rfl
      exact resource.entityType.noColon hch
    simpa using hne
  rw [Resource.key, toList_defaultResourceKey, takeWhile_append_of_pos hclass]
  cases resource.entity <;> simp

/-- **Keys say which resource they are of.** -/
theorem eq_of_key (h : other.key = resource.key) :
    other.entityType.lower = resource.entityType.lower ∧ other.entity = resource.entity := by
  have hclass : other.entityType.lower = resource.entityType.lower := by
    have htake := takeWhile_key other
    rw [h, takeWhile_key] at htake
    exact String.toList_injective (append_cancel_right htake).symm
  refine ⟨hclass, ?_⟩
  have hlist := congrArg String.toList h
  simp only [Resource.key, toList_defaultResourceKey, hclass, append_cancel_left_eq,
    List.cons.injEq, true_and] at hlist
  cases hother : other.entity with
  | none =>
    cases hentity : resource.entity with
    | none => rfl
    | some pk => simp [hother, hentity] at hlist
  | some pk' =>
    cases hentity : resource.entity with
    | none => simp [hother, hentity] at hlist
    | some pk =>
      simp only [hother, hentity, Option.elim_some, List.cons.injEq, true_and] at hlist
      rw [String.toList_injective hlist]

theorem key_ne_of_foreign (h : Foreign other resource) : other.key ≠ resource.key := by
  intro heq
  obtain ⟨hclass, hentity⟩ := eq_of_key heq
  rcases h with h | ⟨pk, hpk, hne⟩
  · exact h hclass
  · exact hne (hentity.symm.trans hpk)

theorem key_ne_wildcard (resource : Resource) : resource.key ≠ "*" := by
  intro h
  have hlist := congrArg (fun key => 's' ∈ key.toList) h
  simp only [Resource.key, toList_defaultResourceKey] at hlist
  simp at hlist

/-! ## Grants -/

theorem allows_iff : Allows ctx action resource ↔ Granted ctx action ["*", resource.key] := by
  have hcan : ctx.can action resource.key = true ↔ Granted ctx action ["*", resource.key] := by
    simp [AuthContext.can, isCandidate, Granted, and_comm]
  rw [← hcan, Allows, authorize]
  cases ctx.can action resource.key <;> simp

theorem granted_of_adds {keys : List String} (h : Adds grant ctx ctx') :
    Granted ctx' action keys ↔
      Granted ctx action keys ∨ action.value ∈ grant.actions ∧ grant.resource ∈ keys := by
  obtain ⟨before, after, hbefore, hafter⟩ := h
  unfold Granted
  rw [hbefore, hafter]
  simp only [mem_append, mem_cons]
  constructor
  · rintro ⟨g, hg | rfl | hg, hgrant⟩
    · exact .inl ⟨g, .inl hg, hgrant⟩
    · exact .inr hgrant
    · exact .inl ⟨g, .inr hg, hgrant⟩
  · rintro (⟨g, hg | hg, hgrant⟩ | hgrant)
    · exact ⟨g, .inl hg, hgrant⟩
    · exact ⟨g, .inr (.inr hg), hgrant⟩
    · exact ⟨grant, .inr (.inl rfl), hgrant⟩

/-- Nobody else has the subject of a caller with a name of its own. -/
theorem subject_iff :
    (∀ caller : AuthContext, caller.userId ≠ ctx.userId → subjectFor caller ≠ subjectFor ctx) ↔
      ∃ user, ctx.userId = some user ∧ user ≠ "anonymous" := by
  constructor
  · intro h
    cases huser : ctx.userId with
    | none =>
      have hclash := h ⟨some "anonymous", []⟩ (by simp [huser])
      exact absurd (by simp [subjectFor, huser]) hclash
    | some user =>
      refine ⟨user, rfl, ?_⟩
      rintro rfl
      have hclash := h ⟨none, []⟩ (by simp [huser])
      exact absurd (by simp [subjectFor, huser]) hclash
  · rintro ⟨user, huser, hname⟩ caller hne hsame
    rw [subjectFor, subjectFor, huser] at hsame
    rw [huser] at hne
    cases hcaller : caller.userId with
    | none =>
      rw [hcaller] at hsame
      exact hname hsame.symm
    | some other =>
      rw [hcaller] at hsame hne
      exact hne (congrArg some hsame)

/-- **Grants mean what they say** if and only if a grant for the class of an instance comes with one
for the wildcard or the instance, and the caller has a name, other than that of the anonymous. -/
theorem meets_iff (ctx : AuthContext) (action : Action) (resource : Resource) :
    Meets ctx action resource ↔
      (resource.entity ≠ none → Granted ctx action [resource.typeKey] →
        Granted ctx action ["*", resource.key]) ∧
          ∃ user, ctx.userId = some user ∧ user ≠ "anonymous" := by
  have hsplit : Granted ctx action ["*", resource.typeKey, resource.key] ↔
      Granted ctx action [resource.typeKey] ∨ Granted ctx action ["*", resource.key] := by
    simp only [Granted, mem_cons, not_mem_nil, or_false, ← exists_or]
    refine exists_congr fun g => ?_
    tauto
  rw [← subject_iff]
  constructor
  · intro h
    exact ⟨fun _ htype => allows_iff.mp (h.granted.mpr (hsplit.mpr (.inl htype))),
      fun caller => h.subject caller action resource⟩
  · rintro ⟨htype, hsubject⟩
    refine ⟨?_, ?_, ?_, fun caller _ _ => hsubject caller⟩
    · rw [allows_iff, hsplit, or_iff_right_of_imp]
      intro hgrant
      by_cases hentity : resource.entity = none
      · -- the key of a collection is the type-level one
        have hkey : resource.typeKey = resource.key := by
          rw [Resource.key, hentity, Resource.typeKey]
        obtain ⟨g, hg, haction, hres⟩ := hgrant
        rw [hkey] at hres
        exact ⟨g, hg, haction, mem_cons_of_mem _ hres⟩
      · exact htype hentity hgrant
    · intro grant ctx' hadds hallows
      rw [allows_iff] at hallows ⊢
      exact (granted_of_adds hadds).mpr (.inl hallows)
    · intro grant ctx' other hadds hforeign hother
      rw [allows_iff, allows_iff, granted_of_adds hadds, or_iff_left]
      rintro ⟨-, hres⟩
      simp only [hother, mem_cons, not_mem_nil, or_false] at hres
      exact hres.elim (key_ne_wildcard other) (key_ne_of_foreign hforeign)

/-- A grant for all posts does not allow to read one. -/
theorem post_not_read :
    let post : EntityClass := ⟨"Post", "post", by decide⟩
    let ctx : AuthContext := ⟨some "alice", [⟨"posts", ["read"]⟩]⟩
    let read : Action := ⟨"read", "<Action.READ: 'read'>"⟩
    Allows ctx read ⟨post, none⟩ ∧ ¬Allows ctx read ⟨post, some "42"⟩ ∧
      ¬Meets ctx read ⟨post, some "42"⟩ := by
  intro post ctx read
  have hgranted : Granted ctx read ["*", (⟨post, none⟩ : Resource).key] :=
    ⟨_, mem_cons_self, by decide, by decide⟩
  have hnot : ¬Granted ctx read ["*", (⟨post, some "42"⟩ : Resource).key] := by
    rintro ⟨g, hg, -, hres⟩
    obtain rfl := mem_singleton.mp hg
    revert hres
    decide
  refine ⟨allows_iff.mpr hgranted, fun h => hnot (allows_iff.mp h), fun h => hnot ?_⟩
  exact allows_iff.mp (h.granted.mpr ⟨_, mem_cons_self, by decide, by decide⟩)

end Varco.Grants
