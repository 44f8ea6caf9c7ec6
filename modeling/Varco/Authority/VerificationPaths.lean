import Varco.Authority.MultiKey
import Varco.Jwt.RoundTrip

/-!
# The two verification paths

A token that a key of the authority has signed is verified by `MultiKeyAuthority.verify` and by
`TrustedIssuerRegistry.verify`, and `verify_agree_iff` says when the two agree. They look up the
same key (`get?_of_signed`, `resolveKey_of_held`), and what differs is how they call `jwt.decode`:
without an expected audience the authority leaves the check of `aud` on, and rejects every token
that has one.
-/

namespace Varco

open List

variable {Priv Pub K Tok : Type}

/-! ## What PyJWT documents -/

/-- `int(value)`, of an integer. -/
def Json.timestamp : Json → ℤ
  | .int n => n
  | _ => 0

def Json.audiences : Json → List String
  | .str aud => [aud]
  | .arr auds => auds.filterMap fun aud => match aud with
    | .str aud => some aud
    | _ => none
  | _ => []

def timely (leeway now : ℚ) (payload : JsonObject) : Bool :=
  (payload.get? "exp").all (fun exp => decide (now - leeway < exp.timestamp)) &&
    (payload.get? "nbf").all (fun nbf => decide (nbf.timestamp ≤ now + leeway)) &&
      (payload.get? "iat").all fun iat => decide (iat.timestamp ≤ now + leeway)

def hasNoAud (payload : JsonObject) : Bool := !((payload.get? "aud").getD .null).truthy

def audMatches (audience : List String) (payload : JsonObject) : Bool :=
  !hasNoAud payload &&
    audience.any fun aud => ((payload.get? "aud").getD .null).audiences.contains aud

/-- The checks of `jwt.decode`, the one of the signature apart. -/
def DecodeOptions.accepts (opts : DecodeOptions) (now : ℚ) (payload : JsonObject) : Bool :=
  timely opts.leeway now payload &&
    (!opts.verifyAud || opts.audience.elim (hasNoAud payload) (audMatches · payload))

/-- What is assumed of PyJWT, for the claims of a builder. -/
structure PyJwt.Documented (py : PyJwt Priv Pub K Tok) : Prop where
  unverifiedKid {claims priv algorithm kid tok}
    (h : py.encode claims priv algorithm kid = .ok tok) : py.unverifiedKid tok = .ok (some kid)
  accepted {b : JwtBuilder} {priv algorithm kid tok now} {opts : DecodeOptions}
    (h : py.encode b.build.toClaims priv algorithm kid = .ok tok)
    (halg : algorithm ∈ opts.algorithms) (hopts : opts.accepts now b.build.toClaims = true) :
    py.decode now tok (py.publicKey priv) opts = .ok b.build.toClaims
  rejected {b : JwtBuilder} {priv algorithm kid tok now} {opts : DecodeOptions}
    (h : py.encode b.build.toClaims priv algorithm kid = .ok tok)
    (hopts : opts.accepts now b.build.toClaims = false) :
    ∃ e, py.decode now tok (py.publicKey priv) opts = .error e
  pyJwk {claims priv algorithm kid tok} (h : py.encode claims priv algorithm kid = .ok tok) :
    py.pyJwk (py.jwk priv algorithm) = .ok (py.publicKey priv, algorithm)

/-! ## The claims of a builder -/

/-- What is written as the claims of a token can be read. -/
theorem JwtBuilder.fromRawClaims_isOk (b : JwtBuilder) :
    ∃ t, JwtParser.fromRawClaims b.build.toClaims = .ok t := by
  have htime {k : String} (hk : k ∈ reservedClaimKeys) {dt : Option EventTime}
      (hclaim : b.build.claim k = dt.map fun dt => .int (toUtcTimestamp dt)) :
      ∃ dt', readTimestamp b.build.toClaims k = .ok dt' := by
    rw [readTimestamp, JsonWebToken.get?_reserved b.not_reserved hk, hclaim]
    cases dt with
    | none => exact ⟨none, rfl⟩
    | some dt => exact ⟨_, rfl⟩
  obtain ⟨exp, hexp⟩ := htime (k := "exp") (by decide) rfl
  obtain ⟨iat, hiat⟩ := htime (k := "iat") (by decide) rfl
  obtain ⟨nbf, hnbf⟩ := htime (k := "nbf") (by decide) rfl
  have haud : b.build.toClaims.get? "aud" = b.aud.map Audience.toClaim :=
    JsonWebToken.get?_reserved b.not_reserved (by decide)
  have hctx : JwtParser.buildAuthCtx b.build.toClaims = .ok b.build.received :=
    JsonWebToken.buildAuthCtx_toClaims (t := b.build) b.not_reserved
  unfold JwtParser.fromRawClaims
  simp only [hexp, hiat, hnbf, haud, readAudience_toClaim, hctx, bind, Except.bind]
  exact ⟨_, rfl⟩

theorem JwtBuilder.sameIssuer_iff (b : JwtBuilder) (iss : String) :
    TrustedIssuerRegistry.sameIssuer (b.build.toClaims.get? "iss") iss = true ↔
      b.iss = some iss := by
  have hiss : b.build.toClaims.get? "iss" = (Json.ofOption b.iss).notNone :=
    JsonWebToken.get?_reserved b.not_reserved (by decide)
  rw [hiss]
  cases b.iss with
  | none => exact iff_of_false Bool.false_ne_true (Option.some_ne_none iss).symm
  | some s =>
    change (s == iss) = true ↔ _
    rw [beq_iff_eq, Option.some.injEq]

/-! ## The keys over a run -/

namespace MultiKeyAuthority

variable {py : PyJwt Priv Pub K Tok} {a₀ a : JwtAuthority py} {m m₁ m' : MultiKeyAuthority py}
  {l l₁ l₂ : List (Change py)} {kid : String}

def actives (a₀ : JwtAuthority py) (l : List (Change py)) : List (JwtAuthority py) :=
  a₀ :: l.filterMap fun change => match change with
    | .rotate a => some a
    | .retire _ => none

/-- A new authority has a fresh `kid`, and the one issuer. -/
def Fresh (a₀ : JwtAuthority py) (l : List (Change py)) (_ : MultiKeyAuthority py) :
    Change py → Prop
  | .rotate a => (∀ a' ∈ actives a₀ l, a'.kid ≠ a.kid) ∧ a.issuer = a₀.issuer
  | .retire _ => True

abbrev Rotated (a₀ : JwtAuthority py) : List (Change py) → MultiKeyAuthority py → Prop :=
  Guarded Step (Fresh a₀) (init a₀)

theorem retire_eq_ok (h : m.retire kid = .ok m') :
    m'.authorities = m.authorities.erase kid ∧ m'.activeKid = m.activeKid ∧ kid ≠ m.activeKid ∧
      (m.authorities.get? kid).isSome := by
  unfold retire at h
  split_ifs at h with hactive hnone
  rw [← Except.ok.inj h]
  exact ⟨rfl, rfl, hactive, by simpa [Option.isSome_iff_ne_none] using hnone⟩

theorem get?_active : m.authorities.get? m.activeKid = some m.active := by
  rw [active, Option.some_get]

theorem mem_actives_rotate {a' : JwtAuthority py} :
    a' ∈ actives a₀ (l ++ [Change.rotate a]) ↔ a' ∈ actives a₀ l ∨ a' = a := by
  simp [actives, filterMap_append, or_assoc]

theorem actives_retire : actives a₀ (l ++ [Change.retire kid]) = actives a₀ l := by
  simp [actives, filterMap_append]

theorem actives_prefix (h : a ∈ actives a₀ l₁) : a ∈ actives a₀ (l₁ ++ l₂) := by
  rw [actives, filterMap_append, ← cons_append]
  exact mem_append_left _ h

/-- What holds after a run: the authorities that are there have been active, no two that have been
active share a `kid`, and all have the one issuer. -/
structure Inv (a₀ : JwtAuthority py) (l : List (Change py)) (m : MultiKeyAuthority py) : Prop where
  mem : ∀ kid a, m.authorities.get? kid = some a → a ∈ actives a₀ l
  unique : ∀ a ∈ actives a₀ l, ∀ a' ∈ actives a₀ l, a.kid = a'.kid → a = a'
  issuer : ∀ a ∈ actives a₀ l, a.issuer = a₀.issuer

theorem Inv.rotate (h : Inv a₀ l m) (hok : Fresh a₀ l m (.rotate a)) :
    Inv a₀ (l ++ [Change.rotate a]) (m.rotate a) where
  mem := by
    intro kid a' h'
    have hget : (m.authorities.set a.kid a).get? kid = some a' := h'
    rw [Dict.get?_set] at hget
    rw [mem_actives_rotate]
    split_ifs at hget with hkid
    · exact .inr (Option.some.inj hget).symm
    · exact .inl (h.mem kid a' hget)
  unique := by
    intro a' ha' a'' ha'' hkid
    rcases mem_actives_rotate.mp ha' with h' | rfl
    · rcases mem_actives_rotate.mp ha'' with h'' | rfl
      · exact h.unique a' h' a'' h'' hkid
      · exact absurd hkid (hok.1 a' h')
    · rcases mem_actives_rotate.mp ha'' with h'' | rfl
      · exact absurd hkid.symm (hok.1 a'' h'')
      · rfl
  issuer := by
    intro a' ha'
    rcases mem_actives_rotate.mp ha' with ha' | rfl
    · exact h.issuer a' ha'
    · exact hok.2

theorem Inv.retire (h : Inv a₀ l m) (hsub : ∀ k a, m'.authorities.get? k = some a →
    m.authorities.get? k = some a) : Inv a₀ (l ++ [Change.retire kid]) m' := by
  refine ⟨?_, ?_, ?_⟩
  · intro k a h'
    rw [actives_retire]
    exact h.mem k a (hsub k a h')
  · rw [actives_retire]
    exact h.unique
  · rw [actives_retire]
    exact h.issuer

/-- **The invariant of the runs.** -/
theorem inv_of_rotated (h : Rotated a₀ l m) : Inv a₀ l m := by
  refine h.invariant ⟨?_, ?_, ?_⟩ ?_
  · intro kid a h'
    have hget : (Dict.empty.set a₀.kid a₀).get? kid = some a := h'
    rw [Dict.get?_set] at hget
    split_ifs at hget
    · exact mem_singleton.mpr (Option.some.inj hget).symm
    · cases hget
  · intro a ha a' ha' _
    rw [mem_singleton.mp ha, mem_singleton.mp ha']
  · intro a ha
    rw [mem_singleton.mp ha]
  · intro l m change m' _ hok hst ih
    cases hst with
    | rotate => exact ih.rotate hok
    | retired hr =>
      refine ih.retire fun k a h' => ?_
      rw [(retire_eq_ok hr).1, Dict.get?_erase] at h'
      split_ifs at h'
      exact h'
    | refused => exact ih.retire fun _ _ h' => h'

theorem Step.det {change : Change py} {m₂ : MultiKeyAuthority py} (h₁ : Step m change m₁)
    (h₂ : Step m change m₂) : m₁ = m₂ := by
  cases h₁ with
  | rotate =>
    cases h₂ with
    | rotate => rfl
  | retired h =>
    cases h₂ with
    | retired h' => exact Except.ok.inj (h.symm.trans h')
    | refused h' => cases h.symm.trans h'
  | refused h =>
    cases h₂ with
    | retired h' => cases h.symm.trans h'
    | refused => rfl

/-- A call in the run has retired `kid`. -/
def Retired (a₀ : JwtAuthority py) (l : List (Change py)) (kid : String) : Prop :=
  ∃ l₁ l₂ m m', l = l₁ ++ .retire kid :: l₂ ∧ Run Step (init a₀) l₁ m ∧ m.retire kid = .ok m'

theorem retired_snoc {change : Change py} (h : Run Step (init a₀) l m) :
    Retired a₀ (l ++ [change]) kid ↔
      Retired a₀ l kid ∨ change = .retire kid ∧ ∃ m', m.retire kid = .ok m' := by
  constructor
  · rintro ⟨l₁, l₂, t, t', hl, ht, hr⟩
    rcases eq_nil_or_concat' l₂ with rfl | ⟨l₃, b, rfl⟩
    · obtain ⟨rfl, hc⟩ := append_inj' hl rfl
      rw [ht.det (fun _ _ _ _ => Step.det) h] at hr
      exact .inr ⟨singleton_inj.mp hc, t', hr⟩
    · rw [← cons_append, ← append_assoc] at hl
      exact .inl ⟨l₁, l₃, t, t', (append_inj' hl rfl).1, ht, hr⟩
  · rintro (⟨l₁, l₂, t, t', rfl, ht, hr⟩ | ⟨rfl, m', hr⟩)
    · exact ⟨l₁, l₂ ++ [change], t, t', by simp, ht, hr⟩
    · exact ⟨l, [], m, m', rfl, h, hr⟩

theorem mem_actives_of_retired (h : Rotated a₀ l m) (hr : Retired a₀ l kid) :
    ∃ a ∈ actives a₀ l, a.kid = kid := by
  obtain ⟨l₁, l₂, t, t', rfl, ht, hr⟩ := hr
  obtain ⟨t₁, h₁, -⟩ := h.split
  rw [ht.det (fun _ _ _ _ => Step.det) h₁.run] at hr
  obtain ⟨a, ha⟩ := Option.isSome_iff_exists.mp (retire_eq_ok hr).2.2.2
  exact ⟨a, actives_prefix ((inv_of_rotated h₁).mem kid a ha), t₁.keyed kid a ha⟩

/-- **An authority that has been active is missing just if it has been retired.** -/
theorem get?_eq_none_iff (h : Rotated a₀ l m) (ha : a ∈ actives a₀ l) :
    m.authorities.get? a.kid = none ↔ Retired a₀ l a.kid := by
  revert a
  refine h.invariant (I := fun l m => ∀ {a}, a ∈ actives a₀ l →
    (m.authorities.get? a.kid = none ↔ Retired a₀ l a.kid)) ?_ ?_
  · intro a ha
    rw [mem_singleton.mp ha]
    have hget : (init a₀).authorities.get? a₀.kid = some a₀ := Dict.get?_set_self ..
    refine iff_of_false (fun h => Option.some_ne_none _ (hget.symm.trans h)) ?_
    rintro ⟨l₁, l₂, _, _, hl, -⟩
    simp at hl
  · intro l m change m' h hok hst ih a ha
    rw [retired_snoc h.run]
    cases hst with
    | rotate b =>
      have hget : (m.rotate b).authorities.get? a.kid =
          if a.kid = b.kid then some b else m.authorities.get? a.kid := Dict.get?_set ..
      rw [hget, or_iff_left fun h => by cases h.1]
      rcases mem_actives_rotate.mp ha with ha | rfl
      · rw [if_neg (hok.1 a ha), ih ha]
      · rw [if_pos rfl]
        refine iff_of_false (Option.some_ne_none _) fun hr => ?_
        obtain ⟨a', ha', hkid⟩ := mem_actives_of_retired h hr
        exact hok.1 a' ha' hkid
    | @retired _ kid hr =>
      rw [actives_retire] at ha
      rw [(retire_eq_ok hr).1, Dict.get?_erase, ← ih ha]
      split_ifs with hk
      · exact iff_of_true rfl (.inr ⟨by rw [hk], m', by rw [hk, hr]⟩)
      · rw [or_iff_left]
        rintro ⟨he, -⟩
        exact hk (Change.retire.inj he).symm
    | @refused kid e hr =>
      rw [actives_retire] at ha
      rw [or_iff_left, ih ha]
      rintro ⟨he, m'', hr'⟩
      rw [← Change.retire.inj he, hr] at hr'
      cases hr'

/-- The published key of a `kid`. -/
theorem findByKid_jwks (m : MultiKeyAuthority py) (kid : String) :
    m.jwks.findByKid kid = (m.authorities.get? kid).map JwtAuthority.publicJwk := by
  have hkeyed : ∀ e ∈ m.authorities.entries, e.2.kid = e.1 := fun e he =>
    m.keyed e.1 e.2 (Dict.mem_entries.mp he)
  unfold jwks Dict.values Dict.get? JsonWebKeySet.findByKid
  generalize m.authorities.entries = entries at hkeyed
  induction entries with
  | nil => rfl
  | cons e entries ih =>
    obtain ⟨k, a⟩ := e
    have hk : a.kid = k := hkeyed (k, a) mem_cons_self
    have hjwk : a.publicJwk.kid = some k := by rw [a.publicJwk_eq, hk]
    rw [map_cons, map_cons, List.find?_cons, lookup_cons, hjwk]
    by_cases h : kid = k
    · simp [h]
    · rw [beq_eq_false_iff_ne.mpr h, decide_eq_false fun he => h (Option.some.inj he).symm]
      exact ih fun e he => hkeyed e (mem_cons_of_mem _ he)

end MultiKeyAuthority

/-! ## The entries of a registry -/

namespace TrustedIssuerRegistry

variable {kid : String}

theorem searchCaches_eq_none {keysets : List (Option (JsonWebKeySet K))}
    (h : ∀ keyset ∈ keysets, findKey kid keyset = none) : searchCaches kid keysets = none := by
  rw [searchCaches, List.findSome?_eq_none_iff]
  rintro ⟨keyset, i⟩ he
  rw [h keyset (fst_mem_of_mem_zipIdx he), Option.map_none]

theorem searchCaches_append {before after : List (Option (JsonWebKeySet K))}
    {keyset : Option (JsonWebKeySet K)} {key : JsonWebKey K}
    (hbefore : ∀ keyset ∈ before, findKey kid keyset = none)
    (hkey : findKey kid keyset = some key) :
    searchCaches kid (before ++ keyset :: after) = some (key, before.length) := by
  have h := searchCaches_eq_none hbefore
  unfold searchCaches at h ⊢
  rw [zipIdx_append, List.findSome?_append, h, Option.none_or, zipIdx_cons,
    List.findSome?_cons, hkey, Option.map_some, Nat.zero_add]

/-- The registry holds the authority, and has just been loaded; no other issuer has `kid`. -/
structure Snapshot.Holds {py : PyJwt Priv Pub K Tok} (r : Snapshot K) (m : MultiKeyAuthority py)
    (kid : String) (before : List (TrustedIssuerEntry K)) (entry : TrustedIssuerEntry K)
    (after : List (TrustedIssuerEntry K)) : Prop where
  entries : r.entries = before ++ entry :: after
  iss : entry.iss = m.issuer
  source : entry.source = m.jwks
  loaded : ∀ e ∈ r.entries, e.keyset = some e.source
  others : ∀ e ∈ before ++ after, e.findKey kid = none

variable {py : PyJwt Priv Pub K Tok} {r : Snapshot K} {m : MultiKeyAuthority py}
  {before after : List (TrustedIssuerEntry K)} {entry : TrustedIssuerEntry K} {cfg : Config}
  (h : r.Holds m kid before entry after)

include h

theorem Snapshot.Holds.keyset : entry.keyset = some m.jwks := by
  rw [← h.source]
  refine h.loaded entry ?_
  rw [h.entries]
  exact mem_append_right _ mem_cons_self

theorem Snapshot.Holds.refreshed_keysets (s : State K) (hs : s.keysets = r.state.keysets) :
    (refreshed (r.entries.map fun e => some e.source) s).keysets = r.state.keysets := by
  change List.zipWith Option.or _ s.keysets = _
  rw [hs]
  change List.zipWith Option.or _ (r.entries.map (·.keyset)) = r.entries.map (·.keyset)
  rw [zipWith_map, zipWith_self]
  exact map_congr_left fun e he => by rw [h.loaded e he, Option.some_or]

/-- Nothing but the caches decides, right after loading. -/
theorem Snapshot.Holds.resolve_eq : r.resolve cfg kid = searchCaches kid r.state.keysets := by
  unfold Snapshot.resolve TrustedIssuerRegistry.resolveKey acquire
  cases hfound : searchCaches kid r.state.keysets with
  | some found => rfl
  | none =>
    split_ifs
    · rfl
    · dsimp only
      exact (congrArg (searchCaches kid) (h.refreshed_keysets _ rfl)).trans hfound

theorem Snapshot.Holds.resolveKey_of_found {a : JwtAuthority py}
    (ha : m.authorities.get? kid = some a) : r.resolveKey cfg kid = some (a.publicJwk, entry) := by
  have hkey : findKey kid entry.keyset = some a.publicJwk := by
    rw [h.keyset]
    exact (m.findByKid_jwks kid).trans (by rw [ha, Option.map_some])
  have hkeysets : r.state.keysets =
      before.map (·.keyset) ++ entry.keyset :: after.map (·.keyset) := by
    change r.entries.map (·.keyset) = _
    rw [h.entries, map_append, map_cons]
  have hfound : r.resolve cfg kid = some (a.publicJwk, before.length) := by
    rw [h.resolve_eq, hkeysets, searchCaches_append _ hkey, length_map]
    intro keyset hk
    obtain ⟨e, he, rfl⟩ := mem_map.mp hk
    exact h.others e (mem_append_left _ he)
  rw [Snapshot.resolveKey, hfound, h.entries]
  simp

theorem Snapshot.Holds.resolveKey_of_retired (hm : m.authorities.get? kid = none) :
    r.resolveKey cfg kid = none := by
  rw [Snapshot.resolveKey, h.resolve_eq, searchCaches_eq_none, Option.bind_none]
  intro keyset hk
  obtain ⟨e, he, rfl⟩ := mem_map.mp hk
  rw [h.entries] at he
  rcases mem_append.mp he with he | he
  · exact h.others e (mem_append_left _ he)
  rcases mem_cons.mp he with rfl | he
  · rw [h.keyset]
    exact (m.findByKid_jwks kid).trans (by rw [hm, Option.map_none])
  · exact h.others e (mem_append_right _ he)

end TrustedIssuerRegistry

/-! ## The two paths -/

namespace MultiKeyAuthority

open TrustedIssuerRegistry

variable {py : PyJwt Priv Pub K Tok} {a₀ a : JwtAuthority py} {m : MultiKeyAuthority py}
  {l : List (Change py)} {b : JwtBuilder} {tok : Tok} {now : ℚ} {audience : Option (List String)}
  {cfg : Config} {settings : JwtVerificationSettings} {r : Snapshot K}
  {before after : List (TrustedIssuerEntry K)} {entry : TrustedIssuerEntry K}

theorem verify_of_kid (hkid : py.unverifiedKid tok = .ok (some a.kid)) :
    a.verify now tok audience =
      py.decode now tok a.publicKey { algorithms := [a.algorithm], audience } >>=
        JwtParser.fromRawClaims := by
  unfold JwtAuthority.verify
  rw [hkid]
  change (if a.kid ≠ a.kid then _ else _) = _
  rw [if_neg fun h => h rfl]

variable {t : JsonWebToken}

section

variable (hpy : py.Documented) (hsign : a.sign b = .ok tok)

include hpy hsign

/-- What a path returns that decodes with these options. -/
theorem toOption_decode {opts : DecodeOptions} (halg : a.algorithm ∈ opts.algorithms)
    (ht : JwtParser.fromRawClaims b.build.toClaims = .ok t) :
    (py.decode now tok (py.publicKey a.privateKey) opts >>= JwtParser.fromRawClaims).toOption =
      if opts.accepts now b.build.toClaims then some t else none := by
  split_ifs with hopts
  · rw [hpy.accepted hsign halg hopts]
    exact congrArg Except.toOption ht
  · obtain ⟨e, he⟩ := hpy.rejected hsign (Bool.not_eq_true _ ▸ hopts)
    rw [he]
    rfl

/-- **The authority's path** leaves the check of `aud` on. -/
theorem toOption_verify (ha : m.authorities.get? a.kid = some a)
    (ht : JwtParser.fromRawClaims b.build.toClaims = .ok t) :
    (m.verify now tok audience).toOption =
      if timely 0 now b.build.toClaims && audience.elim (hasNoAud b.build.toClaims)
        (audMatches · b.build.toClaims) then some t else none := by
  have hkid : py.unverifiedKid tok = .ok (some a.kid) := hpy.unverifiedKid hsign
  have hm : m.verify now tok audience = a.verify now tok audience := by
    unfold verify
    simp only [hkid, bind, Except.bind, ha]
  rw [hm, verify_of_kid hkid, a.publicKey_eq,
    toOption_decode hpy hsign (mem_singleton_self _) ht]
  rfl

theorem toOption_verify_of_retired (ha : m.authorities.get? a.kid = none) :
    (m.verify now tok audience).toOption = none := by
  have hkid : py.unverifiedKid tok = .ok (some a.kid) := hpy.unverifiedKid hsign
  unfold verify
  simp only [hkid, bind, Except.bind, ha]
  rfl

theorem toOption_registry_verify_of_retired (ha : m.authorities.get? a.kid = none)
    (hr : r.Holds m a.kid before entry after) :
    (r.verify py cfg settings now tok audience).toOption = none := by
  have hkid : py.unverifiedKid tok = .ok (some a.kid) := hpy.unverifiedKid hsign
  unfold Snapshot.verify
  simp only [hkid, hr.resolveKey_of_retired ha, bind, Except.bind]
  rfl

/-- **The registry's path** leaves the check of `aud` out where no audience is expected, and checks
the issuer. -/
theorem toOption_registry_verify (ha : m.authorities.get? a.kid = some a)
    (hr : r.Holds m a.kid before entry after)
    (ht : JwtParser.fromRawClaims b.build.toClaims = .ok t) :
    (r.verify py cfg settings now tok audience).toOption =
      if (timely settings.leewaySeconds now b.build.toClaims &&
          audience.all (audMatches · b.build.toClaims)) &&
        (!settings.enforceIssuer || sameIssuer (b.build.toClaims.get? "iss") m.issuer)
      then some t else none := by
  have hkid : py.unverifiedKid tok = .ok (some a.kid) := hpy.unverifiedKid hsign
  have hkey : py.pyJwk a.publicJwk.key = .ok (py.publicKey a.privateKey, a.algorithm) := by
    rw [a.publicJwk_eq]
    exact hpy.pyJwk hsign
  have hopts : (settings.decodeKwargs a.algorithm audience).accepts now b.build.toClaims =
      (timely settings.leewaySeconds now b.build.toClaims &&
        audience.all (audMatches · b.build.toClaims)) := by
    cases audience <;> rfl
  unfold Snapshot.verify
  simp only [hkid, hr.resolveKey_of_found ha, hkey, bind, Except.bind, Except.mapError, hr.iss]
  rw [← hopts]
  cases haccepts : (settings.decodeKwargs a.algorithm audience).accepts now b.build.toClaims with
  | true =>
    rw [hpy.accepted hsign (mem_singleton_self _) haccepts, Bool.true_and]
    dsimp only
    rw [ht]
    cases settings.enforceIssuer <;>
      cases sameIssuer (b.build.toClaims.get? "iss") m.issuer <;> rfl
  | false =>
    obtain ⟨e, he⟩ := hpy.rejected hsign haccepts
    rw [he]
    rfl

end

def IssuerOk (settings : JwtVerificationSettings) (b : JwtBuilder) (iss : String) : Prop :=
  settings.enforceIssuer = true → b.iss = some iss

/-- The decisive flags of two paths, `T` and `A` of the one and `L`, `R` and `I` of the other. -/
theorem flags_agree_iff {T A L R I : Bool} (hR : A = true → R = true) :
    ((if T && A then some t else none) = (if (L && R) && I then some t else none) ∧
      (T = true → R = true → (if T && A then some t else none).isSome ∧
        (if (L && R) && I then some t else none).isSome)) ↔
      R = false ∨ ((T = true → A = true ∧ L = true ∧ I = true) ∧
        (T = false → ¬(L = true ∧ I = true))) := by
  revert hR
  cases T <;> cases A <;> cases L <;> cases R <;> cases I <;> simp

theorem issuerOk_iff {iss : String} : IssuerOk settings b iss ↔
    (!settings.enforceIssuer || sameIssuer (b.build.toClaims.get? "iss") iss) = true := by
  rw [IssuerOk, ← b.sameIssuer_iff]
  cases settings.enforceIssuer <;> simp

theorem issuer_of_rotated (h : Rotated a₀ l m) : m.issuer = a₀.issuer :=
  (inv_of_rotated h).issuer _ ((inv_of_rotated h).mem _ _ get?_active)

/-- The two paths agree, and both accept a token that is valid now, whose key has not been retired,
and which is for the audience, if there is one. -/
def PathsAgree (m : MultiKeyAuthority py) (r : Snapshot K) (cfg : Config)
    (settings : JwtVerificationSettings) (retired : Prop) (b : JwtBuilder) (tok : Tok) (now : ℚ)
    (audience : Option (List String)) : Prop :=
  (m.verify now tok audience).toOption = (r.verify py cfg settings now tok audience).toOption ∧
    (timely 0 now b.build.toClaims → ¬retired →
      (∀ names, audience = some names → audMatches names b.build.toClaims) →
        (m.verify now tok audience).toOption.isSome ∧
          (r.verify py cfg settings now tok audience).toOption.isSome)

/-- **When the two paths agree.** With the key retired, or for another audience, both reject the
token. Otherwise a token that is valid now has no audience where none is expected, the issuer of the
authority, and is valid with the leeway as well; and one that is not valid now is not made so by the
leeway. -/
theorem verify_agree_iff (hpy : py.Documented) (h : Rotated a₀ l m) (ha : a ∈ actives a₀ l)
    (hsign : a.sign b = .ok tok) (hr : r.Holds m a.kid before entry after) :
    PathsAgree m r cfg settings (Retired a₀ l a.kid) b tok now audience ↔
      Retired a₀ l a.kid ∨
        (∃ names, audience = some names ∧ audMatches names b.build.toClaims = false) ∨
        (timely 0 now b.build.toClaims →
          (audience = none → hasNoAud b.build.toClaims) ∧
            timely settings.leewaySeconds now b.build.toClaims ∧
              IssuerOk settings b a₀.issuer) ∧
        (timely 0 now b.build.toClaims = false →
          ¬(timely settings.leewaySeconds now b.build.toClaims ∧
            IssuerOk settings b a₀.issuer)) := by
  obtain ⟨t, ht⟩ := b.fromRawClaims_isOk
  have hiss : m.issuer = a₀.issuer := issuer_of_rotated h
  unfold PathsAgree
  cases hget : m.authorities.get? a.kid with
  | none =>
    have hretired : Retired a₀ l a.kid := (get?_eq_none_iff h ha).mp hget
    rw [toOption_verify_of_retired hpy hsign hget,
      toOption_registry_verify_of_retired hpy hsign hget hr]
    exact iff_of_true ⟨rfl, fun _ hnot => absurd hretired hnot⟩ (.inl hretired)
  | some a' =>
    have hretired : ¬Retired a₀ l a.kid := fun hr =>
      Option.some_ne_none a' (hget.symm.trans ((get?_eq_none_iff h ha).mpr hr))
    obtain rfl : a' = a := (inv_of_rotated h).unique a' ((inv_of_rotated h).mem _ _ hget) a ha
      (m.keyed _ _ hget)
    rw [toOption_verify hpy hsign hget ht, toOption_registry_verify hpy hsign hget hr ht, hiss,
      or_iff_right hretired, issuerOk_iff]
    have hall : (∀ names, audience = some names → audMatches names b.build.toClaims = true) ↔
        audience.all (audMatches · b.build.toClaims) = true := by
      cases audience <;> simp
    have hother : (∃ names, audience = some names ∧ audMatches names b.build.toClaims = false) ↔
        audience.all (audMatches · b.build.toClaims) = false := by
      cases audience <;> simp
    rw [hall, hother]
    have hmatched : audience.elim (hasNoAud b.build.toClaims) (audMatches · b.build.toClaims) ↔
        audience.all (audMatches · b.build.toClaims) ∧
          (audience = none → hasNoAud b.build.toClaims) := by
      cases audience <;> simp
    have hflags := flags_agree_iff (T := timely 0 now b.build.toClaims)
      (L := timely settings.leewaySeconds now b.build.toClaims)
      (I := !settings.enforceIssuer || sameIssuer (b.build.toClaims.get? "iss") a₀.issuer)
      (t := t) fun h => (hmatched.mp h).1
    rw [hmatched] at hflags
    simp only [hretired, not_false_eq_true, true_implies]
    refine hflags.trans ?_
    cases audience.all (audMatches · b.build.toClaims) <;> simp

/-! ## Two services -/

def clear : PyJwt String String (String × String) (JsonObject × String × String × String) where
  publicKey := id
  jwk := Prod.mk
  encode claims key algorithm kid := .ok (claims, key, algorithm, kid)
  unverifiedKid tok := .ok (some tok.2.2.2)
  decode now tok key opts :=
    if key = tok.2.1 ∧ tok.2.2.1 ∈ opts.algorithms ∧ opts.accepts now tok.1 then .ok tok.1
    else .error ⟨"InvalidTokenError", ""⟩
  pyJwk := .ok

theorem documented_clear : clear.Documented where
  unverifiedKid h := by
    rw [← Except.ok.inj h]
    rfl
  accepted h halg hopts := by
    rw [← Except.ok.inj h]
    exact if_pos ⟨rfl, halg, hopts⟩
  rejected h hopts := by
    rw [← Except.ok.inj h]
    exact ⟨_, if_neg fun haccepts => Bool.false_ne_true (hopts.symm.trans haccepts.2.2)⟩
  pyJwk _ := rfl

def keyA : JwtAuthority clear := .fromPem clear "priv-a" "svc:A" "my-svc" "RS256"
def keyB : JwtAuthority clear := .fromPem clear "priv-b" "svc:B" "my-svc" "RS256"

/-- A token for the service `orders`, valid for a second. -/
def forOrders : JwtBuilder :=
  { keyA.token with
    aud := some (.one "orders")
    exp := some (.aware (unixEpoch + 1000000) 0) }

def loaded (m : MultiKeyAuthority clear) : Snapshot (String × String) where
  entries := [{ label := "MY_SVC", iss := "my-svc", source := m.jwks, keyset := some m.jwks }]
  lastRefresh := 0
  clock := 0

theorem loaded_holds {m : MultiKeyAuthority clear} (h : m.issuer = "my-svc") (kid : String) :
    (loaded m).Holds m kid []
      { label := "MY_SVC", iss := "my-svc", source := m.jwks, keyset := some m.jwks } [] where
  entries := rfl
  iss := h.symm
  source := rfl
  loaded e he := by rw [mem_singleton.mp he]
  others e he := absurd he not_mem_nil

theorem verify_agree_rotated :
    PathsAgree ((init keyA).rotate keyB) (loaded ((init keyA).rotate keyB)) ⟨10⟩ {}
      (Retired keyA ([] ++ [Change.rotate keyB]) "svc:A") forOrders
      (forOrders.build.toClaims, "priv-a", "RS256", "svc:A") 0 (some ["orders"]) := by
  have hrun : Rotated keyA ([] ++ [Change.rotate keyB]) ((init keyA).rotate keyB) := by
    refine .snoc .nil ⟨?_, rfl⟩ (.rotate _ _)
    intro a ha
    rw [mem_singleton.mp ha]
    decide
  refine (verify_agree_iff documented_clear hrun mem_cons_self rfl
    (loaded_holds rfl "svc:A")).mpr (.inr (.inr ⟨fun _ => ⟨fun h => (by cases h), ?_, ?_⟩, ?_⟩))
  · decide +kernel
  · exact fun _ => rfl
  · intro hnot
    exact absurd hnot (by decide +kernel)

/-- A service that expects no audience: the authority rejects the token, the registry accepts it. -/
theorem audience_rejected :
    clear.Documented ∧ Rotated keyA [] (init keyA) ∧
      keyA.sign forOrders = .ok (forOrders.build.toClaims, "priv-a", "RS256", "svc:A") ∧
      (loaded (init keyA)).Holds (init keyA) "svc:A" []
        { label := "MY_SVC", iss := "my-svc", source := (init keyA).jwks,
          keyset := some (init keyA).jwks } [] ∧
      ¬PathsAgree (init keyA) (loaded (init keyA)) ⟨10⟩ {} (Retired keyA [] "svc:A") forOrders
        (forOrders.build.toClaims, "priv-a", "RS256", "svc:A") 0 none := by
  refine ⟨documented_clear, .nil, rfl, loaded_holds rfl "svc:A", ?_⟩
  rintro ⟨hsame, -⟩
  have hauthority : ((init keyA).verify 0
      (forOrders.build.toClaims, "priv-a", "RS256", "svc:A") none).toOption.isSome = false := by
    decide +kernel
  rw [hsame] at hauthority
  revert hauthority
  decide +kernel

end MultiKeyAuthority

end Varco
