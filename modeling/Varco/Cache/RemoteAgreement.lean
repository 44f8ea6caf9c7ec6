import Varco.Cache.Remote

/-!
# What a cache on a server owes

A state of a cache agrees with a `ReferenceCache` if what is found under a key, now and later, is
what the reference allows. Storing an entry, removing keys and marking a key keep the two in
agreement, whatever the server is; a call answers what the reference allows.
-/

namespace Varco

open Function

/-! ## What is owed -/

variable {V : Type}

/-- The expiry of an entry, and the `ttl` it was written with. -/
def Fits (now : ℚ) : Option ℚ → Option ℚ → Prop
  | none, none => True
  | some t, some expiry => now + t ≤ expiry ∧ expiry < now + t + 1
  | _, _ => False

namespace RemoteCache

def lookup (cfg : CacheSettings) (s : RemoteCache V) (now : ℚ) (key : String) :
    Option (Option V) :=
  if s.shouldInvalidate key then none else s.found now (cfg.fullKey key)

/-- **The cache is the reference**, from now on. -/
def Agrees (cfg : CacheSettings) (r : ReferenceCache V) (s : RemoteCache V) : Prop :=
  ∀ t, s.time ≤ t → ∀ key, r.Allows t key (s.lookup cfg t key)

/-- What a call answers: `get` and `exists` answer what the reference allows, `get_many` is `get`
for each key, and the other two do what the single calls do in turn. -/
def Answers (call : RemoteCache V → ℚ → CacheCall V → Except PyException (RemoteCache V))
    (cfg : CacheSettings) (r : ReferenceCache V) (s : RemoteCache V) (now : ℚ) : CacheCall V → Prop
  | .get key => ∃ found, r.Allows now key found ∧ (s.get cfg now key).1 = found.join
  | .exists_ key => ∃ found, r.Allows now key found ∧ s.exists_ cfg now key = found.isSome
  | .getMany keys => ∀ key v, (s.getMany cfg now keys).get? key = some v ↔
    key ∈ keys ∧ v.isSome = true ∧ (s.get cfg now key).1 = v
  | .setMany items ttl => (call s now (.setMany items ttl)).toOption =
    (items.entries.foldlM (fun s item => call s now (.set item.1 item.2 ttl)) s).toOption
  | .deleteMany keys => (call s now (.deleteMany keys)).toOption =
    (keys.foldlM (fun s key => call s now (.delete key)) s).toOption
  | _ => True

def act (call : RemoteCache V → ℚ → CacheCall V → Except PyException (RemoteCache V))
    (s : RemoteCache V) (a : ℚ × CacheCall V) : Option (RemoteCache V) :=
  if s.time ≤ a.1 then (call s a.1 a.2).toOption.map fun s => { s with time := a.1 } else none

/-- What was found under the keys is not `null`, and not marked. -/
def Plain (cfg : CacheSettings) (s : RemoteCache V) (now : ℚ) (keys : List String) : Prop :=
  ∀ key ∈ keys, ∀ v, s.found now (cfg.fullKey key) = some v →
    v.isSome = true ∧ s.shouldInvalidate key = false

end RemoteCache

def referenceOf (cfg : CacheSettings) (calls : List (ℚ × CacheCall V)) : ReferenceCache V :=
  calls.foldl (fun r a => r.after cfg a.1 a.2) fun _ => none

def Foreign (cfg : CacheSettings) (k : String) : Prop := ∀ key, k ≠ cfg.fullKey key

/-! ## Keys -/

variable {cfg : CacheSettings} {r : ReferenceCache V} {s s' : RemoteCache V} {now t x : ℚ}
  {key key' start : String} {keys : List String} {v : Option V} {ttl expiry : Option ℚ}
  {p : String → Bool}

theorem CacheSettings.fullKey_inj (h : cfg.fullKey key = cfg.fullKey key') : key = key' := by
  have hlist := congrArg String.toList h
  simp only [CacheSettings.fullKey, String.toList_append, List.append_cancel_left_eq] at hlist
  exact String.toList_inj.mp hlist

theorem pyStartsWith_fullKey :
    (cfg.keyPrefix ++ start).toList.isPrefixOf (cfg.fullKey key).toList =
      pyStartsWith key start := by
  unfold CacheSettings.fullKey pyStartsWith
  rw [Bool.eq_iff_iff, List.isPrefixOf_iff_prefix, List.isPrefixOf_iff_prefix,
    String.toList_append, String.toList_append, List.prefix_append_right_inj]

theorem not_startsWith_of_foreign {k : String} (h : ∀ key, k ≠ cfg.fullKey key) :
    (cfg.keyPrefix ++ start).toList.isPrefixOf k.toList = false := by
  rw [Bool.eq_false_iff]
  intro hstart
  obtain ⟨rest, hrest⟩ := List.isPrefixOf_iff_prefix.mp hstart
  refine h (start ++ String.ofList rest) (String.toList_inj.mp ?_)
  rw [← hrest, CacheSettings.fullKey]
  simp

/-! ## What agrees -/

namespace RemoteCache

theorem lookup_congr (hentries : s'.server.entries (cfg.fullKey key) =
    s.server.entries (cfg.fullKey key)) (hstrategy : s'.strategy = s.strategy)
    (hfinds : s'.findsExpiring = s.findsExpiring) :
    s'.lookup cfg t key = s.lookup cfg t key := by
  have hfound : s'.found t (cfg.fullKey key) = s.found t (cfg.fullKey key) := by
    simp only [found, Expiring.live, hentries, hfinds]
  have hmark : s'.shouldInvalidate key = s.shouldInvalidate key := by
    unfold shouldInvalidate
    rw [hstrategy]
  unfold lookup
  rw [hfound, hmark]

theorem lookup_of_entries_none (h : s.server.entries (cfg.fullKey key) = none) :
    s.lookup cfg t key = none := by
  simp [lookup, found, Expiring.live, h]

theorem lookup_of_entries_some (h : s.server.entries (cfg.fullKey key) = some (v, expiry))
    (hmark : s.shouldInvalidate key = false) :
    (expiry.all (t < ·) = true → s.lookup cfg t key = some v) ∧
      (expiry.any (· < t) = true → s.lookup cfg t key = none) ∧
      (s.lookup cfg t key = some v ∨ s.lookup cfg t key = none) := by
  simp only [lookup, hmark, Bool.false_eq_true, ↓reduceIte, found, Expiring.live, h]
  cases expiry with
  | none => simp [Option.filter, Expiring.isLive]
  | some x =>
    rcases lt_trichotomy t x with hlt | rfl | hgt
    · simp [Option.filter, Expiring.isLive, hlt, hlt.le, hlt.not_gt]
    · cases s.findsExpiring <;> simp [Option.filter, Expiring.isLive]
    · simp [Option.filter, Expiring.isLive, hgt.not_ge, hgt.not_gt]

theorem Written.allows_of_fits (h : Fits now ttl expiry) {found : Option (Option V)}
    (hfound : (expiry.all (t < ·) = true → found = some v) ∧
      (expiry.any (· < t) = true → found = none) ∧ (found = some v ∨ found = none)) :
    (⟨v, now, ttl⟩ : Written V).Allows t found := by
  cases ttl with
  | none =>
    cases expiry with
    | none => exact hfound.1 rfl
    | some x => exact h.elim
  | some τ =>
    cases expiry with
    | none => exact h.elim
    | some x =>
      obtain ⟨hlow, hhigh⟩ := h
      refine ⟨fun hearly => hfound.1 ?_, fun hlate => hfound.2.1 ?_, hfound.2.2⟩
      · exact decide_eq_true (hearly.trans_le hlow)
      · exact decide_eq_true (hhigh.trans_le hlate)

section

variable (h : Agrees cfg r s)

include h

theorem Agrees.wait (hnow : s.time ≤ now) :
    Agrees cfg r { s with time := now } := fun t ht key => h t (hnow.trans ht) key

/-- **An entry is stored.** -/
theorem Agrees.store (hmark : s.shouldInvalidate key = false) (hfits : Fits now ttl expiry)
    (registry : List String) :
    Agrees cfg (r.write key ⟨v, now, ttl⟩)
      { s with server := s.server.put (cfg.fullKey key) (v, expiry), registry := registry } := by
  intro t ht key'
  unfold ReferenceCache.Allows ReferenceCache.write
  by_cases hkey : key' = key
  · subst hkey
    have hentries : (s.server.put (cfg.fullKey key') (v, expiry)).entries (cfg.fullKey key') =
        some (v, expiry) := update_self ..
    have hlookup := lookup_of_entries_some (t := t) (s := { s with
      server := s.server.put (cfg.fullKey key') (v, expiry), registry := registry }) hentries hmark
    rw [update_self]
    exact Written.allows_of_fits hfits hlookup
  · have hentries : (s.server.put (cfg.fullKey key) (v, expiry)).entries (cfg.fullKey key') =
        s.server.entries (cfg.fullKey key') :=
      update_of_ne (fun heq => hkey (CacheSettings.fullKey_inj heq)) ..
    have hsame : lookup cfg { s with
        server := s.server.put (cfg.fullKey key) (v, expiry), registry := registry } t key' =
        s.lookup cfg t key' := lookup_congr hentries rfl rfl
    rw [update_of_ne hkey, hsame]
    exact h t ht key'

/-- **Keys are removed.** -/
theorem Agrees.remove (p : String → Bool) (htime : s'.time = s.time)
    (hstrategy : s'.strategy = s.strategy) (hfinds : s'.findsExpiring = s.findsExpiring)
    (hgone : ∀ key, p key = true → s'.server.entries (cfg.fullKey key) = none)
    (hkept : ∀ key, p key = false →
      s'.server.entries (cfg.fullKey key) = s.server.entries (cfg.fullKey key)) :
    Agrees cfg (r.remove p) s' := by
  intro t ht key
  unfold ReferenceCache.Allows ReferenceCache.remove
  cases hp : p key with
  | true => exact lookup_of_entries_none (hgone key hp)
  | false =>
    rw [lookup_congr (hkept key hp) hstrategy hfinds]
    exact h t (htime ▸ ht) key

theorem Agrees.del (registry : List String) :
    Agrees cfg (r.remove (· = key))
      { s with server := s.server.del (cfg.fullKey key), registry := registry } := by
  refine h.remove _ rfl rfl rfl (fun key' hkey => ?_) fun key' hkey => ?_
  · rw [of_decide_eq_true hkey]
    exact update_self ..
  · exact update_of_ne
      (fun heq => of_decide_eq_false hkey (CacheSettings.fullKey_inj heq)) ..

theorem Agrees.invalidate (hstrategy : s.strategy.isSome = true) :
    Agrees cfg (r.remove (· = key)) (s.invalidate key) := by
  obtain ⟨marks, hmarks⟩ := Option.isSome_iff_exists.mp hstrategy
  intro t ht key'
  unfold ReferenceCache.Allows ReferenceCache.remove
  by_cases hkey : key' = key
  · simp [hkey, lookup, shouldInvalidate, RemoteCache.invalidate, hmarks]
  · have hsame : (s.invalidate key).lookup cfg t key' = s.lookup cfg t key' := by
      simp [lookup, found, shouldInvalidate, RemoteCache.invalidate, hmarks, hkey]
    rw [hsame]
    simp only [hkey, decide_false, Bool.false_eq_true, ↓reduceIte]
    exact h t ht key'

/-- A marked key is evicted by `get`. -/
theorem Agrees.get : Agrees cfg r (s.get cfg now key).2 := by
  intro t ht key'
  unfold RemoteCache.get at ht ⊢
  split_ifs at ht ⊢ with hmark
  · have hsame : RemoteCache.lookup cfg { s with server := s.server.del (cfg.fullKey key) } t key' =
        s.lookup cfg t key' := by
      by_cases hkey : key' = key
      · subst hkey
        have hmark' : shouldInvalidate { s with server := s.server.del (cfg.fullKey key') } key' =
            true := hmark
        simp only [lookup, hmark, hmark', ↓reduceIte]
      · refine lookup_congr ?_ rfl rfl
        exact update_of_ne (fun heq => hkey (CacheSettings.fullKey_inj heq)) ..
    rw [hsame]
    exact h t ht key'
  · exact h t ht key'

end

theorem get_setTime : ({ (s.get cfg now key).2 with time := t } : RemoteCache V) =
    (RemoteCache.get cfg { s with time := t } now key).2 := by
  unfold RemoteCache.get
  change _ = (if s.shouldInvalidate key = true then _ else _ : _ × _).2
  split_ifs <;> rfl

/-- `get` leaves each entry, or removes that of its key. -/
theorem entries_get (k : String) : (s.get cfg now key).2.server.entries k = s.server.entries k ∨
    k = cfg.fullKey key ∧ (s.get cfg now key).2.server.entries k = none := by
  unfold RemoteCache.get
  split_ifs
  · by_cases hk : k = cfg.fullKey key
    · subst hk
      exact Or.inr ⟨rfl, update_self ..⟩
    · exact Or.inl (update_of_ne hk ..)
  · exact Or.inl rfl

/-! ## Calls in turn -/

section

variable {α : Type} {f : RemoteCache V → α → RemoteCache V}

theorem foldl_setTime
    (hf : ∀ s a, ({ f s a with time := t } : RemoteCache V) = f { s with time := t } a)
    (l : List α) (s : RemoteCache V) :
    ({ l.foldl f s with time := t } : RemoteCache V) = l.foldl f { s with time := t } := by
  induction l generalizing s with
  | nil => rfl
  | cons a l ih => rw [List.foldl_cons, List.foldl_cons, ih, hf]

theorem entries_foldl {k : String}
    (hf : ∀ s a, (f s a).server.entries k = s.server.entries k) (l : List α) (s : RemoteCache V) :
    (l.foldl f s).server.entries k = s.server.entries k := by
  induction l generalizing s with
  | nil => rfl
  | cons a l ih => exact (ih (f s a)).trans (hf s a)

end

/-! ## What is answered -/

theorem get_fst : (s.get cfg now key).1 = (s.lookup cfg now key).join := by
  unfold RemoteCache.get lookup
  split_ifs <;> rfl

theorem exists_eq : s.exists_ cfg now key = (s.lookup cfg now key).isSome := by
  unfold exists_ lookup
  cases s.shouldInvalidate key <;> simp

theorem get?_foldl_found (found : String → Option (Option V))
    {step : Dict String (Option V) → String → Dict String (Option V)}
    (hstep : ∀ result k, (step result k).get? key =
      if key = k then (found k).or (result.get? key) else result.get? key)
    (keys : List String) (result : Dict String (Option V)) :
    (keys.foldl step result).get? key =
      if key ∈ keys then (found key).or (result.get? key) else result.get? key := by
  induction keys generalizing result with
  | nil => simp
  | cons k keys ih =>
    rw [List.foldl_cons, ih, hstep]
    by_cases hkey : key = k
    · subst hkey
      simp [← Option.or_assoc]
    · simp [hkey]

theorem get?_getMany : (s.getMany cfg now keys).get? key =
    if key ∈ keys then s.found now (cfg.fullKey key) else none := by
  refine (get?_foldl_found (fun k => s.found now (cfg.fullKey k)) ?_ keys Dict.empty).trans ?_
  · intro result k
    cases hk : s.found now (cfg.fullKey k) with
    | none => simp
    | some value =>
      by_cases hkey : key = k
      · simp [hkey]
      · simp [hkey, Dict.get?_set]
  · simp

/-- **`get_many` is `get` for each key**, where nothing is `null` or marked. -/
theorem getMany_of_plain (h : s.Plain cfg now keys) :
    (s.getMany cfg now keys).get? key = some v ↔
      key ∈ keys ∧ v.isSome = true ∧ (s.get cfg now key).1 = v := by
  rw [get?_getMany, get_fst]
  by_cases hkey : key ∈ keys
  · simp only [hkey, ↓reduceIte, true_and]
    cases hfound : s.found now (cfg.fullKey key) with
    | none =>
      have hlookup : s.lookup cfg now key = none := by
        unfold lookup
        rw [hfound]
        split_ifs <;> rfl
      rw [hlookup]
      refine iff_of_false nofun ?_
      rintro ⟨hsome, rfl⟩
      cases hsome
    | some value =>
      obtain ⟨hvalue, hmark⟩ := h key hkey value hfound
      have hlookup : s.lookup cfg now key = some value := by
        unfold lookup
        rw [hmark, hfound]
        rfl
      rw [hlookup]
      constructor
      · intro heq
        cases heq
        exact ⟨hvalue, rfl⟩
      · rintro ⟨-, rfl⟩
        rfl
  · simp [hkey]

end RemoteCache

end Varco
