import Varco.Authority.Registry
import Varco.Jwt.Parser

/-!
# Signing authorities, and two ways to verify a token

`JwtAuthority` and `MultiKeyAuthority`, with the rotation of keys, and
`TrustedIssuerRegistry.verify`. PyJWT and the keys it works with are a parameter (`PyJwt`), and so
is the key that `JwkBuilder.from_pem` makes of a private one.
-/

namespace Varco

variable {Priv Pub K Tok : Type}

/-! ## PyJWT -/

/-- The keyword arguments of `jwt.decode`; `verifyAud` is one of its `options`. -/
structure DecodeOptions where
  algorithms : List String
  audience : Option (List String) := none
  leeway : ℚ := 0
  verifyAud : Bool := true

/-- PyJWT, on claims, private and public keys, keys of a JWKS, and encoded tokens. -/
structure PyJwt (Priv Pub K Tok : Type) where
  /-- `private_key.public_key()` -/
  publicKey : Priv → Pub
  /-- `JwkBuilder.from_pem(...).public_key()`, of a private key for an algorithm. -/
  jwk : Priv → String → K
  /-- `encode(claims, key, algorithm=algorithm, headers={"kid": kid})` -/
  encode : JsonObject → Priv → String → String → Except PyException Tok
  /-- `get_unverified_header(token).get("kid")` -/
  unverifiedKid : Tok → Except PyException (Option String)
  /-- `decode`, at a time. -/
  decode : ℚ → Tok → Pub → DecodeOptions → Except PyException JsonObject
  /-- The `key` and the `algorithm_name` of `PyJWK(key)`. -/
  pyJwk : K → Except PyException (Pub × String)

/-! ## The builder -/

/-- A `str | None`. -/
def Json.ofOption : Option String → Json
  | some s => .str s
  | none => .null

/-- `JwtBuilder`, whose `claim` takes no reserved key. -/
structure JwtBuilder where
  sub : Option String := none
  iss : Option String := none
  aud : Option Audience := none
  exp : Option EventTime := none
  iat : Option EventTime := none
  nbf : Option EventTime := none
  jti : Option String := none
  tokenType : Option String := none
  authCtx : Option Auth.AuthContext := none
  extraClaims : JsonObject := .empty
  not_reserved : ∀ k ∈ reservedClaimKeys, extraClaims.get? k = none := by intros; rfl

def JwtBuilder.build (b : JwtBuilder) : JsonWebToken where
  sub := .ofOption b.sub
  iss := .ofOption b.iss
  aud := b.aud
  exp := b.exp
  iat := b.iat
  nbf := b.nbf
  jti := .ofOption b.jti
  tokenType := .ofOption b.tokenType
  authCtx := b.authCtx
  extraClaims := b.extraClaims

/-! ## One key -/

/-- `UnknownKidError(message)` -/
def unknownKidError (message : String) : PyException := ⟨"UnknownKidError", message⟩

/-- `JwtAuthority`, as `from_pem` makes it. -/
structure JwtAuthority (py : PyJwt Priv Pub K Tok) where
  privateKey : Priv
  publicKey : Pub
  publicJwk : JsonWebKey K
  kid : String
  issuer : String
  algorithm : String
  publicKey_eq : publicKey = py.publicKey privateKey
  publicJwk_eq : publicJwk = ⟨some kid, py.jwk privateKey algorithm⟩

namespace JwtAuthority

variable {py : PyJwt Priv Pub K Tok}

/-- `from_pem`, on what `load_pem_private_key` has read. -/
def fromPem (py : PyJwt Priv Pub K Tok) (privateKey : Priv) (kid issuer algorithm : String) :
    JwtAuthority py where
  privateKey
  publicKey := py.publicKey privateKey
  publicJwk := ⟨some kid, py.jwk privateKey algorithm⟩
  kid
  issuer
  algorithm
  publicKey_eq := rfl
  publicJwk_eq := rfl

variable (self : JwtAuthority py)

def token : JwtBuilder := { iss := some self.issuer }

def sign (builder : JwtBuilder) : Except PyException Tok :=
  py.encode builder.build.toClaims self.privateKey self.algorithm self.kid

/-- `verify`, at a time. -/
def verify (now : ℚ) (token : Tok) (audience : Option (List String)) :
    Except PyException JsonWebToken := do
  let tokenKid ← py.unverifiedKid token
  if let some kid := tokenKid then
    if kid ≠ self.kid then
      throw (unknownKidError
        (s!"Token kid={pyRepr kid} does not match this authority's kid={pyRepr self.kid}. " ++
          "Use MultiKeyAuthority for tokens signed by multiple keys."))
  let raw ← py.decode now token self.publicKey { algorithms := [self.algorithm], audience }
  JwtParser.fromRawClaims raw

end JwtAuthority

/-! ## Several keys -/

/-- `MultiKeyAuthority`: its authorities by `kid`, one of which is active. -/
structure MultiKeyAuthority (py : PyJwt Priv Pub K Tok) where
  authorities : Dict String (JwtAuthority py)
  activeKid : String
  keyed : ∀ kid a, authorities.get? kid = some a → a.kid = kid
  active_isSome : (authorities.get? activeKid).isSome

namespace MultiKeyAuthority

variable {py : PyJwt Priv Pub K Tok}

def init (initialAuthority : JwtAuthority py) : MultiKeyAuthority py where
  authorities := Dict.empty.set initialAuthority.kid initialAuthority
  activeKid := initialAuthority.kid
  keyed := by
    intro kid a h
    rw [Dict.get?_set] at h
    split_ifs at h with hkid
    · rw [← Option.some.inj h, hkid]
    · cases h
  active_isSome := by rw [Dict.get?_set_self, Option.isSome_some]

variable (self : MultiKeyAuthority py)

/-- `_authorities[_active_kid]` -/
def active : JwtAuthority py := (self.authorities.get? self.activeKid).get self.active_isSome

def issuer : String := self.active.issuer

/-- `kids`, in the order of the dictionary. -/
def kids : List String := self.authorities.entries.map Prod.fst

/-- `verify`, at a time. -/
def verify (now : ℚ) (token : Tok) (audience : Option (List String)) :
    Except PyException JsonWebToken := do
  match ← py.unverifiedKid token with
  | none =>
    throw (unknownKidError
      ("Token header has no 'kid' claim — cannot route to the correct key. " ++
        "All tokens signed by JwtAuthority include a 'kid' in the header. " ++
        "If verifying a third-party token without kid, use JwtAuthority directly."))
  | some kid =>
    match self.authorities.get? kid with
    | none =>
      throw (unknownKidError
        (s!"No authority registered for kid={pyRepr kid}. " ++
          s!"Known kids: {pyReprList self.kids.mergeSort}. " ++
          "Either this token was signed by a different service, or the key " ++
          "was retired before all tokens signed with it expired."))
    | some authority => authority.verify now token audience

def rotate (newAuthority : JwtAuthority py) : MultiKeyAuthority py where
  authorities := self.authorities.set newAuthority.kid newAuthority
  activeKid := newAuthority.kid
  keyed := by
    intro kid a h
    rw [Dict.get?_set] at h
    split_ifs at h with hkid
    · rw [← Option.some.inj h, hkid]
    · exact self.keyed kid a h
  active_isSome := by rw [Dict.get?_set_self, Option.isSome_some]

def retire (kid : String) : Except PyException (MultiKeyAuthority py) :=
  if hactive : kid = self.activeKid then
    .error (.valueError
      (s!"Cannot retire the active kid={pyRepr kid}. " ++
        "Call rotate() with a new authority first, then retire the old kid. " ++
        "Retiring the active key would leave the authority unable to sign."))
  else if (self.authorities.get? kid).isNone then
    .error (keyError
      (s!"No authority registered for kid={pyRepr kid}. " ++
        s!"Known kids: {pyReprList self.kids.mergeSort}. " ++
        "The key may have already been retired."))
  else .ok { self with
    authorities := self.authorities.erase kid
    keyed := by
      intro kid' a h
      rw [Dict.get?_erase] at h
      split_ifs at h
      exact self.keyed kid' a h
    active_isSome := by
      rw [Dict.get?_erase, if_neg fun h => hactive h.symm]
      exact self.active_isSome }

def jwks : JsonWebKeySet K := self.authorities.values.map JwtAuthority.publicJwk

/-- A call that changes the keys. -/
inductive Change (py : PyJwt Priv Pub K Tok)
  | rotate (newAuthority : JwtAuthority py)
  | retire (kid : String)

/-- A call is made; one that raises changes nothing. -/
inductive Step : MultiKeyAuthority py → Change py → MultiKeyAuthority py → Prop
  | rotate (m : MultiKeyAuthority py) (a : JwtAuthority py) : Step m (.rotate a) (m.rotate a)
  | retired {m m' : MultiKeyAuthority py} {kid : String} (h : m.retire kid = .ok m') :
      Step m (.retire kid) m'
  | refused {m : MultiKeyAuthority py} {kid : String} {e : PyException}
      (h : m.retire kid = .error e) : Step m (.retire kid) m

end MultiKeyAuthority

/-! ## The registry -/

structure JwtVerificationSettings where
  leewaySeconds : ℚ := 0
  enforceIssuer : Bool := true

/-- `decode_kwargs` of the registry: without an audience, `verify_aud` is off. -/
def JwtVerificationSettings.decodeKwargs (settings : JwtVerificationSettings) (algorithm : String)
    (audience : Option (List String)) : DecodeOptions where
  algorithms := [algorithm]
  audience
  leeway := settings.leewaySeconds
  verifyAud := audience.isSome

/-- `TrustedIssuerEntry`, with what its source answers. -/
structure TrustedIssuerEntry (K : Type) where
  label : String
  iss : String
  source : JsonWebKeySet K
  keyset : Option (JsonWebKeySet K) := none

def TrustedIssuerEntry.findKey (entry : TrustedIssuerEntry K) (kid : String) :
    Option (JsonWebKey K) :=
  TrustedIssuerRegistry.findKey kid entry.keyset

namespace TrustedIssuerRegistry

/-- A registry that one call uses: its entries, `_last_refresh`, and the monotonic clock. -/
structure Snapshot (K : Type) where
  entries : List (TrustedIssuerEntry K)
  lastRefresh : ℚ
  clock : ℚ

variable (r : Snapshot K)

def Snapshot.state : State K :=
  { keysets := r.entries.map (·.keyset), lastRefresh := r.lastRefresh, clock := r.clock }

/-- `_resolve_key` of a call that nothing interrupts: the number of the entry that has the key. -/
def Snapshot.resolve (cfg : Config) (kid : String) : Option (JsonWebKey K × ℕ) :=
  match resolveKey cfg kid r.state with
  | .resolved _ found => found
  | _ =>
    match acquire kid r.state with
    | (_, .resolved _ found) => found
    | (s, _) => searchCaches kid (refreshed (r.entries.map fun e => some e.source) s).keysets

def Snapshot.resolveKey (cfg : Config) (kid : String) :
    Option (JsonWebKey K × TrustedIssuerEntry K) :=
  (r.resolve cfg kid).bind fun found => r.entries[found.2]?.map (found.1, ·)

/-- `token_iss == matched_entry.iss` -/
def sameIssuer : Option Json → String → Bool
  | some (.str tokenIss), iss => tokenIss == iss
  | _, _ => false

/-- `verify`, at a time, with the settings of the environment. -/
def Snapshot.verify (py : PyJwt Priv Pub K Tok) (cfg : Config) (settings : JwtVerificationSettings)
    (now : ℚ) (token : Tok) (audience : Option (List String)) :
    Except PyException JsonWebToken := do
  match ← py.unverifiedKid token with
  | none =>
    throw (unknownKidError
      ("Token header has no 'kid' claim — cannot route to the correct key. " ++
        "Ensure tokens are signed with JwtAuthority which injects 'kid' into " ++
        "the JWT header automatically."))
  | some kid =>
    match r.resolveKey cfg kid with
    | none =>
      throw (unknownKidError
        (s!"No registered issuer has a key with kid={pyRepr kid}. " ++
          s!"Registered issuers: {pyReprList (r.entries.map (·.label))}. " ++
          "Check FASTREST_AUTHORIZATION__* env vars — the issuer may not be " ++
          "configured, or the remote JWKS may not yet contain this kid."))
    | some (jwk, matchedEntry) =>
      let (key, algorithm) ← (py.pyJwk jwk.key).mapError fun e => ⟨"KeyLoadError",
        s!"Cannot construct verification key for kid={pyRepr kid}: {e.message}. " ++
          "The key may be malformed or use an unsupported algorithm."⟩
      let raw ← py.decode now token key (settings.decodeKwargs algorithm audience)
      let tokenIss := raw.get? "iss"
      if settings.enforceIssuer && !sameIssuer tokenIss matchedEntry.iss then
        throw ⟨"InvalidIssuerError",
          s!"Token 'iss' claim {(tokenIss.getD .null).repr} does not match the " ++
            s!"registered issuer {pyRepr matchedEntry.iss} whose key " ++
            s!"(kid={pyRepr kid}) signed this token. " ++
            "Pass enforce_issuer=False or set " ++
            "VARCO_JWT_ENFORCE_ISS=false to opt out."⟩
      JwtParser.fromRawClaims raw

end TrustedIssuerRegistry

end Varco
