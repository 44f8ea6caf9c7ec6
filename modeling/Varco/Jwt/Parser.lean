import Varco.Jwt.Token

/-!
# Reading claims

`JwtParser._from_raw_claims` of `varco_core.jwt.parser`, with the identity as its claim transformer
and without token profiles. The sets of a token are sets of strings; an element of another type is a
`TypeError` here, also where Python would take it over.
-/

namespace Varco

/-- `type(value).__name__` -/
def Json.typeName : Json → String
  | .null => "NoneType"
  | .bool _ => "bool"
  | .int _ => "int"
  | .float _ => "float"
  | .str _ => "str"
  | .arr _ => "list"
  | .obj _ => "dict"

/-- The elements of `iter(value)`. -/
def Json.iterate : Json → Except PyException (List Json)
  | .arr values => .ok values
  | .str s => .ok (s.toList.map fun c => .str (String.singleton c))
  | .obj fields => .ok (fields.map fun field => .str field.1)
  | value => .error ⟨"TypeError", s!"'{value.typeName}' object is not iterable"⟩

def Json.asStr : Json → Except PyException String
  | .str s => .ok s
  | value => .error ⟨"TypeError", s!"'{value.typeName}' object is no string"⟩

/-- `frozenset(value)` -/
def frozenset (value : Json) : Except PyException (Finset String) := do
  let values ← value.iterate
  let strings ← values.mapM Json.asStr
  return strings.toFinset

/-- `ClaimTransformError(message)` -/
def claimTransformError (message : String) : PyException := ⟨"ClaimTransformError", message⟩

def fromUtcTimestamp : Json → Except PyException EventTime
  | .int ts => .ok (.aware (unixEpoch + ts * 1000000) 0)
  | .float ts => .ok (.aware (unixEpoch + ts.timedelta) 0)
  | .bool ts => .ok (.aware (unixEpoch + ts.toNat * 1000000) 0)
  | value => .error ⟨"TypeError", s!"'{value.typeName}' object cannot be interpreted as an integer"⟩

/-- `_from_utc_timestamp(raw[k]) if k in raw else None` -/
def readTimestamp (raw : JsonObject) (k : String) : Except PyException (Option EventTime) :=
  match raw.get? k with
  | some ts => (fromUtcTimestamp ts).map some
  | none => .ok none

namespace JwtParser

/-- One entry of `grants`, with its number: its fields, if there are both. -/
def normalizeGrant (index : ℕ) : Json → Except PyException (List (String × Json))
  | .obj fields =>
    if (fields.lookup "resource").isNone then
      .error (claimTransformError (s!"grants[{index}] is missing the required key 'resource': " ++
        (Json.obj fields).repr ++ "."))
    else if (fields.lookup "actions").isNone then
      .error (claimTransformError (s!"grants[{index}] is missing the required key 'actions': " ++
        (Json.obj fields).repr ++ "."))
    else .ok fields
  | item => .error (claimTransformError
      (s!"grants[{index}] must be an object with 'resource' and 'actions' keys, got " ++
        item.repr ++
        "."))

/-- `_normalize_grants(value, target="grants")` -/
def normalizeGrants : Json → Except PyException (List (List (String × Json)))
  | .null => .ok []
  | .arr items => items.zipIdx.mapM fun item => normalizeGrant item.2 item.1
  | value => .error (claimTransformError (s!"Claim 'grants' (grants) must be a list, got " ++
      value.typeName ++ ": " ++ value.repr ++ "."))

/-- `Action(a)` -/
def readAction : Json → Except PyException Action
  | .str a => Action.ofValue a
  | value => .error (.valueError (value.repr ++ " is not a valid Action"))

/-- `ResourceGrant(resource=g["resource"], actions=frozenset(Action(a) for a in g["actions"]))` -/
def readGrant (g : List (String × Json)) : Except PyException ResourceGrant := do
  let values ← ((g.lookup "actions").getD .null).iterate
  let actions ← values.mapM readAction
  return { resource := (g.lookup "resource").getD .null, actions := actions.toFinset }

def buildAuthCtx (canonical : JsonObject) : Except PyException (Option Auth.AuthContext) := do
  let rolesRaw := (canonical.get? "roles").getD (.arr [])
  let scopesRaw := (canonical.get? "scopes").getD (.arr [])
  let grantsRaw ← normalizeGrants ((canonical.get? "grants").getD (.arr []))
  let tenantId := ((canonical.get? "tenant_id").getD .null).notNone
  let actor := ((canonical.get? "actor").getD .null).notNone
  if !rolesRaw.truthy && !scopesRaw.truthy && grantsRaw.isEmpty && tenantId.isNone &&
      actor.isNone then
    return none
  let grants ← grantsRaw.mapM readGrant
  let metadata := (Dict.empty.setSome "tenant_id" tenantId).setSome "actor" actor
  let roles ← frozenset rolesRaw
  let scopes ← frozenset scopesRaw
  return some {
    userId := (canonical.get? "user_id").getD ((canonical.get? "sub").getD .null)
    roles
    scopes
    grants
    metadata }

/-- `aud`, as a token has it. -/
def readAudience : Json → Except PyException (Option Audience)
  | .arr values => (frozenset (.arr values)).map fun auds => some (.many auds)
  | .str aud => .ok (some (.one aud))
  | _ => .ok none

/-- `_from_raw_claims(raw, transformer=IDENTITY, profiles=TokenProfileRegistry())` -/
def fromRawClaims (raw : JsonObject) : Except PyException JsonWebToken := do
  let exp ← readTimestamp raw "exp"
  let iat ← readTimestamp raw "iat"
  let nbf ← readTimestamp raw "nbf"
  let aud ← readAudience ((raw.get? "aud").getD .null)
  let authCtx ← buildAuthCtx raw
  return {
    sub := (raw.get? "sub").getD .null
    iss := (raw.get? "iss").getD .null
    aud
    exp
    iat
    nbf
    jti := (raw.get? "jti").getD .null
    tokenType := (raw.get? "token_type").getD .null
    authCtx
    extraClaims := raw.filterKeys fun k => !reservedClaimKeys.contains k }

end JwtParser

end Varco
