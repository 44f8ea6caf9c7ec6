import Varco.Cache.Memory
import Varco.Foundations.Text

/-!
# The cache keys of tenants

`CacheServiceMixin._cache_key`, `_cache_list_key` and `_invalidate_list` of
`varco_core.cache.mixin`, over an `InMemoryCache`. A key is its parts joined by colons, and the
tenant, if there is one, stands between the namespace and the operation; `_invalidate_list` removes
the keys that start with those of the tenant's lists.

`isolated_iff` says for which sets of tenants the keys keep them apart: no tenant may be empty next
to another one, and none may go on with `get:` or `list:` where another one ends. The MD5 digest of
the query parameters is a parameter: 12 hexadecimal digits, the same for the same parameters only.
-/

namespace Varco

open List

/-! ## Joined texts -/

section

variable {α : Type} {c : α} {g d rest x y a b : List α}

/-- A text that goes on where another one has its first separator reaches at least as far. -/
theorem prefix_of_joined (hg : c ∉ g) (h : d ++ c :: rest = g ++ c :: y) :
    g ++ [c] <+: d ++ [c] := by
  rcases append_eq_append_iff.mp h with ⟨e, rfl, he⟩ | ⟨e, rfl, he⟩
  · cases e with
    | nil => rw [append_nil]
    | cons b e =>
      obtain ⟨rfl, -⟩ := List.cons.inj he
      exact absurd (by simp) hg
  · cases e with
    | nil => rw [append_nil]
    | cons b e =>
      obtain ⟨rfl, -⟩ := List.cons.inj he
      exact ⟨e ++ [c], by simp⟩

/-- Two texts that begin alike: one begins with the other. -/
theorem exists_of_append_eq (h : a ++ x = b ++ y) :
    (∃ d, b = a ++ d ∧ x = d ++ y) ∨ ∃ d, a = b ++ d ∧ y = d ++ x :=
  append_eq_append_iff.mp h

end

/-! ## Keys -/

/-- `hashlib.md5(repr(params).encode()).hexdigest()[:12]`, taken as injective. -/
structure ParamsHash (P : Type) where
  digest : P → String
  injective : ∀ p q, digest p = digest q → p = q
  hex : ∀ p, ∀ c ∈ (digest p).toList, c ∈ ['0', '1', '2', '3', '4', '5', '6', '7', '8', '9', 'a',
    'b', 'c', 'd', 'e', 'f']

def cacheKey (cacheNamespace operation suffix : String) (tenantId : Option String) : String :=
  match tenantId.filter (· ≠ "") with
  | some tenantId => cacheNamespace ++ ":" ++ tenantId ++ ":" ++ operation ++ ":" ++ suffix
  | none => cacheNamespace ++ ":" ++ operation ++ ":" ++ suffix

variable {P : Type}

def cacheListKey (cacheNamespace : String) (hash : ParamsHash P) (params : P)
    (tenantId : Option String) : String :=
  cacheKey cacheNamespace "list" (hash.digest params) tenantId

/-- What is cached for a tenant: an entity by the text of its primary key, or a list. -/
inductive CacheRequest (P : Type)
  | get (tenantId : Option String) (pk : String)
  | list (tenantId : Option String) (params : P)

namespace CacheRequest

def tenantId : CacheRequest P → Option String
  | get tenantId _ => tenantId
  | list tenantId _ => tenantId

def key (cacheNamespace : String) (hash : ParamsHash P) : CacheRequest P → String
  | get tenantId pk => cacheKey cacheNamespace "get" pk tenantId
  | list tenantId params => cacheListKey cacheNamespace hash params tenantId

end CacheRequest

section

variable {ι α : Type}

/-- A cache whose keys are texts: `str` of a text is the text. -/
def InMemoryCache.onTexts (c : InMemoryCache ι String) : InMemoryCache ι String :=
  { c with str := id }

def invalidateList (c : InMemoryCache ι String) (cacheNamespace : String)
    (tenantId : Option String) (s : MemoryState ι String α) :
    Except PyException Unit × MemoryState ι String α :=
  match tenantId.filter (· ≠ "") with
  | some tenantId => c.onTexts.deletePrefix s (cacheNamespace ++ ":" ++ tenantId ++ ":list:")
  | none => InMemoryCache.clear s

/-! ## What keeps tenants apart -/

/-- The keys of the tenants `tenants` are apart: equal keys are for equal requests, and an
invalidation of the lists of a tenant removes these and nothing of another tenant. -/
structure Isolated (c : InMemoryCache ι String) (cacheNamespace : String) (hash : ParamsHash P)
    (α : Type) (tenants : Set (Option String)) : Prop where
  injective : ∀ x y : CacheRequest P, x.tenantId ∈ tenants → y.tenantId ∈ tenants →
    x.key cacheNamespace hash = y.key cacheNamespace hash → x = y
  removes : ∀ (s : MemoryState ι String α) name params, s.started = true → some name ∈ tenants →
    (invalidateList c cacheNamespace (some name) s).2.store.get?
      (cacheListKey cacheNamespace hash params (some name)) = none
  keeps : ∀ (s : MemoryState ι String α) name (x : CacheRequest P), s.started = true →
    some name ∈ tenants → x.tenantId ∈ tenants → x.tenantId ≠ some name →
    (invalidateList c cacheNamespace (some name) s).2.store.get? (x.key cacheNamespace hash) =
      s.store.get? (x.key cacheNamespace hash)

def scope (tenantId : Option String) : String :=
  match tenantId.filter (· ≠ "") with
  | some tenantId => tenantId ++ ":"
  | none => ""

/-- No tenant is empty next to another one, and none goes on with an operation where another one
ends. -/
def Separated (tenants : Set (Option String)) : Prop :=
  ∀ t ∈ tenants, ∀ u ∈ tenants, t ≠ u → t ≠ some "" ∧
    ¬((scope u ++ "get:").toList <+: (scope t).toList) ∧
    (t ≠ none → ¬((scope t ++ "list:").toList <+: (scope u).toList))

/-! ## Keys part by part -/

variable {c : InMemoryCache ι String} {cacheNamespace : String} {hash : ParamsHash P}
  {tenants : Set (Option String)} {t u : Option String} {name operation suffix : String}
  {d rest : List Char}

theorem scope_of_name (hname : name ≠ "") : scope (some name) = name ++ ":" := by
  simp [scope, Option.filter, hname]

/-- **A key in its parts**: the namespace, the tenant, the operation and the suffix. -/
theorem toList_cacheKey : (cacheKey cacheNamespace operation suffix t).toList =
    cacheNamespace.toList ++
      ':' :: ((scope t).toList ++ (operation.toList ++ ':' :: suffix.toList)) := by
  unfold cacheKey scope
  split <;> simp

def CacheRequest.body (hash : ParamsHash P) : CacheRequest P → List Char
  | get _ pk => "get".toList ++ ':' :: pk.toList
  | list _ params => "list".toList ++ ':' :: (hash.digest params).toList

theorem CacheRequest.toList_key (x : CacheRequest P) : (x.key cacheNamespace hash).toList =
    cacheNamespace.toList ++ ':' :: ((scope x.tenantId).toList ++ x.body hash) := by
  cases x <;> exact toList_cacheKey

/-- The scope of a tenant is empty or ends with a colon. -/
theorem scope_ends (t : Option String) :
    (scope t).toList = [] ∨ ∃ d, (scope t).toList = d ++ [':'] := by
  unfold scope
  split
  · exact Or.inr ⟨_, String.toList_append⟩
  · exact Or.inl rfl

theorem scope_inj (ht : t ≠ some "") (hu : u ≠ some "") (h : scope t = scope u) : t = u := by
  have hne : ∀ name, name ++ ":" ≠ "" := by
    intro name hname
    have hlength := congrArg String.length hname
    simp at hlength
  cases t with
  | none =>
    cases u with
    | none => rfl
    | some b =>
      rw [scope_of_name (fun h => hu (congrArg some h))] at h
      exact absurd h.symm (hne b)
  | some a =>
    rw [scope_of_name (fun h => ht (congrArg some h))] at h
    cases u with
    | none => exact absurd h (hne a)
    | some b =>
      rw [scope_of_name (fun h => hu (congrArg some h))] at h
      have hlist := congrArg String.toList h
      rw [String.toList_append, String.toList_append] at hlist
      rw [String.toList_inj.mp (append_cancel_right hlist)]

/-! ## Enough -/

/-- Where the scope of a tenant goes on behind that of another one, it ends with a colon. -/
theorem Separated.ends (h : Separated tenants) (ht : t ∈ tenants) (hu : u ∈ tenants) (hne : t ≠ u)
    (hd : (scope t).toList = (scope u).toList ++ d) : ∃ d', d = d' ++ [':'] := by
  have hdne : d ≠ [] := by
    rintro rfl
    rw [append_nil] at hd
    exact hne (scope_inj (h t ht u hu hne).1 (h u hu t ht hne.symm).1 (String.toList_inj.mp hd))
  rcases scope_ends t with hnil | ⟨e, he⟩
  · rw [hnil] at hd
    exact absurd (append_eq_nil_iff.mp hd.symm).2 hdne
  · refine ⟨d.dropLast, ?_⟩
    have hlast := congrArg List.getLast? (he.symm.trans hd)
    rw [List.getLast?_append_of_ne_nil _ hdne, List.getLast?_concat] at hlast
    rw [dropLast_append_getLast? _ hlast.symm]

/-- **No key reaches into another tenant's**: what a tenant caches does not go on like the scope of
another one. -/
theorem Separated.not_joined {y : CacheRequest P} (h : Separated tenants) (ht : t ∈ tenants)
    (hne : t ≠ y.tenantId)
    (hy : y.tenantId ∈ tenants) (hd : (scope t).toList = (scope y.tenantId).toList ++ d)
    (hcolon : ':' ∈ rest) :
    y.body hash ≠ d ++ rest := by
  obtain ⟨d', rfl⟩ := h.ends ht hy hne hd
  intro heq
  rw [append_assoc, singleton_append] at heq
  cases y with
  | get u pk =>
    have hprefix := prefix_of_joined (g := "get".toList) (by decide) heq.symm
    refine (h t ht u hy hne).2.1 ?_
    change (scope t).toList = (scope u).toList ++ _ at hd
    rw [hd, String.toList_append, prefix_append_right_inj]
    exact hprefix
  | list u params =>
    -- the digest would hold a colon
    obtain ⟨e, he⟩ := prefix_of_joined (g := "list".toList) (by decide) heq.symm
    have hdigest : (hash.digest params).toList = e ++ rest := by
      have hall : "list".toList ++ ':' :: (hash.digest params).toList =
          "list".toList ++ [':'] ++ e ++ rest := by
        rw [he, append_assoc, singleton_append]
        exact heq
      simpa using hall
    have hmem : ':' ∈ (hash.digest params).toList := by
      rw [hdigest]
      exact mem_append_right _ hcolon
    have hhex := hash.hex params ':' hmem
    simp at hhex

theorem CacheRequest.colon_mem_body (x : CacheRequest P) : ':' ∈ x.body hash := by
  cases x <;> simp [body]

theorem CacheRequest.body_inj {x y : CacheRequest P} (h : x.body hash = y.body hash)
    (htenant : x.tenantId = y.tenantId) : x = y := by
  cases x with
  | get t pk =>
    cases y with
    | get u pk' =>
      obtain ⟨-, hpk⟩ := join_inj (by decide) (by decide) h
      cases htenant
      rw [String.toList_inj.mp hpk]
    | list u params => cases (join_inj (by decide) (by decide) h).1
  | list t params =>
    cases y with
    | get u pk => cases (join_inj (by decide) (by decide) h).1
    | list u params' =>
      obtain ⟨-, hdigest⟩ := join_inj (by decide) (by decide) h
      cases htenant
      rw [hash.injective _ _ (String.toList_inj.mp hdigest)]

theorem Separated.injective (h : Separated tenants) (x y : CacheRequest P)
    (hx : x.tenantId ∈ tenants) (hy : y.tenantId ∈ tenants)
    (heq : x.key cacheNamespace hash = y.key cacheNamespace hash) : x = y := by
  have hlist := congrArg String.toList heq
  rw [x.toList_key, y.toList_key] at hlist
  have hrest := (List.cons.inj (append_cancel_left hlist)).2
  by_cases hne : x.tenantId = y.tenantId
  · rw [hne] at hrest
    exact CacheRequest.body_inj (append_cancel_left hrest) hne
  · exfalso
    rcases exists_of_append_eq hrest with ⟨d, hd, hbody⟩ | ⟨d, hd, hbody⟩
    · exact h.not_joined hy (fun h => hne h.symm) hx hd y.colon_mem_body hbody
    · exact h.not_joined hx hne hy hd x.colon_mem_body hbody

variable {s : MemoryState ι String α}

/-- The keys that `_invalidate_list` removes for a tenant. -/
theorem get?_invalidateList {name k : String} (hs : s.started = true) (hname : name ≠ "") :
    (invalidateList c cacheNamespace (some name) s).2.store.get? k =
      if cacheNamespace.toList ++ ':' :: ((scope (some name)).toList ++ "list:".toList) <+: k.toList
        then none else s.store.get? k := by
  have hfilter : (some name).filter (fun name => decide (name ≠ "")) = some name := by
    simp [Option.filter, hname]
  have hstart : k.startsWith (cacheNamespace ++ ":" ++ name ++ ":list:") = true ↔
      cacheNamespace.toList ++ ':' :: ((scope (some name)).toList ++ "list:".toList) <+:
        k.toList := by
    rw [String.startsWith_string_iff, scope_of_name hname]
    simp
  simp only [invalidateList, hfilter, InMemoryCache.deletePrefix, hs, if_true,
    Dict.get?_foldl_erase]
  by_cases hprefix : cacheNamespace.toList ++ ':' :: ((scope (some name)).toList ++
      "list:".toList) <+: k.toList
  · rw [if_pos hprefix]
    split_ifs with hmem
    · rfl
    · -- a key that was not collected is not there
      cases hget : s.store.get? k with
      | none => rfl
      | some entry =>
        exact absurd (mem_filter.mpr ⟨Dict.mem_keys hget, hstart.mpr hprefix⟩) hmem
  · rw [if_neg hprefix, if_neg]
    intro hmem
    exact hprefix (hstart.mp (mem_filter.mp hmem).2)

theorem get?_invalidateList_empty {k : String} (hs : s.started = true) :
    (invalidateList c cacheNamespace (some "") s).2.store.get? k = none := by
  simp only [invalidateList, InMemoryCache.clear, hs]
  rfl

theorem Separated.keeps (h : Separated tenants) {name : String}
    {x : CacheRequest P} (hs : s.started = true) (hname : some name ∈ tenants)
    (hx : x.tenantId ∈ tenants) (hne : x.tenantId ≠ some name) :
    (invalidateList c cacheNamespace (some name) s).2.store.get? (x.key cacheNamespace hash) =
      s.store.get? (x.key cacheNamespace hash) := by
  obtain ⟨hempty, -, hlist⟩ := h _ hname _ hx hne.symm
  rw [get?_invalidateList hs fun heq => hempty (congrArg some heq), if_neg]
  rintro ⟨r, hr⟩
  rw [x.toList_key, append_assoc, cons_append, append_assoc] at hr
  have hrest := (List.cons.inj (append_cancel_left hr)).2
  rcases exists_of_append_eq hrest with ⟨d, hd, hbody⟩ | ⟨d, hd, hbody⟩
  · -- the other tenant goes on behind this one
    obtain ⟨d', rfl⟩ := h.ends hx hname hne hd
    rw [append_assoc, singleton_append] at hbody
    have hjoined : d' ++ ':' :: x.body hash = "list".toList ++ ':' :: r := hbody.symm
    have hprefix := prefix_of_joined (by decide) hjoined
    refine hlist (Option.some_ne_none _) ?_
    rw [hd, String.toList_append, prefix_append_right_inj]
    exact hprefix
  · refine h.not_joined hname hne.symm hx hd ?_ hbody
    simp

/-- **The condition is enough.** -/
theorem isolated_of_separated (h : Separated tenants) :
    Isolated c cacheNamespace hash α tenants where
  injective := h.injective
  removes s name params hs hname := by
    by_cases hempty : name = ""
    · subst hempty
      exact get?_invalidateList_empty hs
    · rw [get?_invalidateList hs hempty, if_pos]
      rw [cacheListKey, toList_cacheKey]
      exact ⟨(hash.digest params).toList, by simp⟩
  keeps s name x hs hname hx hne := h.keeps hs hname hx hne

/-! ## Needed -/

def cacheWith (α : Type) (k : String) : MemoryState ι String α where
  started := true
  store := Dict.empty.set k { value := none, ttl := none, storedAt := 0, tags := ∅ }

theorem get?_cacheWith (k : String) :
    ∃ entry, (cacheWith (ι := ι) α k).store.get? k = some entry :=
  ⟨_, Dict.get?_set_self ..⟩

/-- **The condition is needed.** -/
theorem separated_of_isolated (h : Isolated c cacheNamespace hash α tenants) :
    Separated tenants := by
  intro t ht u hu hne
  have hlost : ∀ name, t = some name →
      (invalidateList c cacheNamespace (some name)
        (cacheWith α ((CacheRequest.get u "").key cacheNamespace hash))).2.store.get?
        ((CacheRequest.get u "").key cacheNamespace hash) ≠ none := by
    rintro name rfl hnone
    obtain ⟨entry, hentry⟩ := get?_cacheWith (ι := ι) (α := α)
      ((CacheRequest.get u "").key cacheNamespace hash)
    have hkept := h.keeps (cacheWith α ((CacheRequest.get u "").key cacheNamespace hash)) name
      (.get u "") rfl ht hu hne.symm
    cases hentry.symm.trans (hkept.symm.trans hnone)
  refine ⟨?_, ?_, fun hsome hprefix => ?_⟩
  · rintro rfl
    exact hlost "" rfl (get?_invalidateList_empty rfl)
  · rintro ⟨r, hr⟩
    -- the primary key of the one may be the rest of the other's key
    have heq := h.injective (.get t "") (.get u (String.ofList r ++ "get:")) ht hu (by
      refine String.toList_inj.mp ?_
      rw [CacheRequest.toList_key, CacheRequest.toList_key]
      change _ ++ ':' :: ((scope t).toList ++ _) = _ ++ ':' :: ((scope u).toList ++ _)
      rw [← hr]
      simp [CacheRequest.body])
    exact hne (congrArg CacheRequest.tenantId heq)
  · cases t with
    | none => exact hsome rfl
    | some name =>
      by_cases hempty : name = ""
      · subst hempty
        exact hlost "" rfl (get?_invalidateList_empty rfl)
      · refine hlost name rfl ?_
        rw [get?_invalidateList rfl hempty, if_pos]
        rw [CacheRequest.toList_key]
        rw [String.toList_append] at hprefix
        obtain ⟨r, hr⟩ := hprefix
        change _ <+: _ ++ ':' :: ((scope u).toList ++ _)
        rw [← hr]
        exact ⟨r ++ CacheRequest.body hash (.get u ""), by simp⟩

/-- **The keys of tenants are apart exactly when** no tenant is empty next to another one, and none
goes on with an operation where another one ends. -/
theorem isolated_iff (c : InMemoryCache ι String) (cacheNamespace : String) (hash : ParamsHash P)
    (α : Type) (tenants : Set (Option String)) :
    Isolated c cacheNamespace hash α tenants ↔ Separated tenants :=
  ⟨separated_of_isolated, isolated_of_separated⟩

end

/-! ## A tenant named like a key -/

theorem oneDigest_hex : ∀ c ∈ "d41d8cd98f00".toList, c ∈ ['0', '1', '2', '3', '4', '5', '6', '7',
    '8', '9', 'a', 'b', 'c', 'd', 'e', 'f'] := by
  have hsubset : "d41d8cd98f00".toList ⊆ ['0', '1', '2', '3', '4', '5', '6', '7', '8', '9', 'a',
      'b', 'c', 'd', 'e', 'f'] := by decide
  exact hsubset

def oneDigest : ParamsHash Unit :=
  ⟨fun _ => "d41d8cd98f00", fun _ _ _ => rfl, fun _ => oneDigest_hex⟩

/-- **Two tenants, one key**: the entity `1` of the tenant `acme:get` and the entity `get:1` of the
tenant `acme`. -/
theorem acme_reads_another : ¬Isolated ({ str := id } : InMemoryCache Unit String) "post" oneDigest
    Unit Set.univ := by
  intro h
  have heq := h.injective (.get (some "acme:get") "1") (.get (some "acme") "get:1")
    (Set.mem_univ _) (Set.mem_univ _) (by decide)
  exact absurd (congrArg CacheRequest.tenantId heq) (by decide)

end Varco
