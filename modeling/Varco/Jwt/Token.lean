import Mathlib.Data.Finset.Sort
import Varco.Event.Serializer

/-!
# JSON Web Tokens

`AuthContext` of `varco_core.auth.base` and `JsonWebToken` of `varco_core.jwt.model`, with the
claims that a token is written as. A field that takes over what a claim says, of whatever type, is a
`Json`, where `None` is null.
-/

namespace Varco

/-! ## Identity -/

inductive Action
  | create
  | read
  | update
  | delete
  | list
  deriving DecidableEq

namespace Action

/-- `str(action)` -/
def value : Action → String
  | .create => "create"
  | .read => "read"
  | .update => "update"
  | .delete => "delete"
  | .list => "list"

/-- `Action(value)` -/
def ofValue (value : String) : Except PyException Action :=
  if value = "create" then .ok .create
  else if value = "read" then .ok .read
  else if value = "update" then .ok .update
  else if value = "delete" then .ok .delete
  else if value = "list" then .ok .list
  else .error (.valueError (pyRepr value ++ " is not a valid Action"))

@[simp] theorem ofValue_value (action : Action) : ofValue action.value = .ok action := by
  cases action <;> rfl

end Action

structure ResourceGrant where
  resource : Json
  actions : Finset Action

namespace Auth

structure AuthContext where
  userId : Json := .null
  roles : Finset String := ∅
  scopes : Finset String := ∅
  grants : List ResourceGrant := []
  metadata : JsonObject := .empty

end Auth

/-! ## Tokens -/

/-- What `aud` holds: a `str` or a `frozenset`. -/
inductive Audience
  | one (aud : String)
  | many (auds : Finset String)
  deriving DecidableEq

structure JsonWebToken where
  sub : Json := .null
  iss : Json := .null
  aud : Option Audience := none
  exp : Option EventTime := none
  iat : Option EventTime := none
  nbf : Option EventTime := none
  jti : Json := .null
  tokenType : Json := .null
  authCtx : Option Auth.AuthContext := none
  extraClaims : JsonObject := .empty

def reservedClaimKeys : List String :=
  ["sub", "iss", "aud", "exp", "iat", "nbf", "jti", "token_type", "roles", "scopes", "grants"]

def unixEpoch : Wall := 719162 * 86400000000

def toUtcTimestamp : EventTime → ℤ
  | .naive wall => (wall - unixEpoch).tdiv 1000000
  | .aware wall offset => (wall - offset * 60000000 - unixEpoch).tdiv 1000000

/-- `None` is null. -/
def Json.notNone : Json → Option Json
  | .null => none
  | value => some value

theorem Json.getD_notNone (value : Json) : value.notNone.getD .null = value := by
  cases value <;> rfl

/-- `sorted(values)`, as a list of strings. -/
def sortedStrings (values : Finset String) : Json :=
  .arr ((values.sort (· ≤ ·)).map .str)

/-- What `aud` is written as. -/
def Audience.toClaim : Audience → Json
  | .one aud => .str aud
  | .many auds => sortedStrings auds

def ResourceGrant.toClaim (g : ResourceGrant) : Json :=
  .obj [("resource", g.resource), ("actions", sortedStrings (g.actions.image Action.value))]

namespace Auth.AuthContext

variable (ctx : Auth.AuthContext)

/-- `claims["roles"]` and `claims["scopes"]`, where they are emitted. -/
def rolesClaim (roles : Finset String) : Option Json :=
  if roles = ∅ then none else some (sortedStrings roles)

/-- `claims["grants"]`, where it is emitted. -/
def grantsClaim : Option Json :=
  if ctx.grants.isEmpty then none else some (.arr (ctx.grants.map ResourceGrant.toClaim))

/-- The claims of the context, added to `claims`. -/
def addClaims (claims : JsonObject) : JsonObject :=
  let claims := claims.setSome "roles" (rolesClaim ctx.roles)
  let claims := claims.setSome "scopes" (rolesClaim ctx.scopes)
  let claims := claims.setSome "grants" ctx.grantsClaim
  let claims := claims.setSome "tenant_id" (ctx.metadata.get? "tenant_id")
  claims.setSome "act" (ctx.metadata.get? "actor")

end Auth.AuthContext

namespace JsonWebToken

variable (t : JsonWebToken)

def registeredClaims : JsonObject :=
  let claims := Dict.empty.setSome "sub" t.sub.notNone
  let claims := claims.setSome "iss" t.iss.notNone
  let claims := claims.setSome "aud" (t.aud.map Audience.toClaim)
  let claims := claims.setSome "exp" (t.exp.map fun dt => .int (toUtcTimestamp dt))
  let claims := claims.setSome "iat" (t.iat.map fun dt => .int (toUtcTimestamp dt))
  let claims := claims.setSome "nbf" (t.nbf.map fun dt => .int (toUtcTimestamp dt))
  let claims := claims.setSome "jti" t.jti.notNone
  claims.setSome "token_type" t.tokenType.notNone

def toClaims : JsonObject :=
  let claims := t.registeredClaims
  let claims := match t.authCtx with
    | some ctx => ctx.addClaims claims
    | none => claims
  JsonObject.update claims t.extraClaims.entries

end JsonWebToken

end Varco
