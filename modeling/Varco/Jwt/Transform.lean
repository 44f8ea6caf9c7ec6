import Varco.Jwt.Parser

/-!
# Claims of foreign issuers

`ClaimPath`, `normalize` and `ClaimMapping.apply` of `varco_core.jwt.transform`. A claim that is
absent, `MISSING`, is `none`, and `None` is null. A rule is judged by `ClaimRule.shapes`: what
`normalize` makes of each source of its chain that is present.

What a required rule resolves to is not empty unless all that is present shapes to something empty:
only a chain of which no source is present is an error.
-/

namespace Varco

open List

/-! ## Paths -/

def Json.walk : List String → Json → Option Json
  | [], value => some value
  | segment :: segments, .obj fields => (fields.lookup segment).bind (Json.walk segments)
  | _ :: _, _ => none

structure ClaimPath where
  segments : List String

def ClaimPath.read (path : ClaimPath) (claims : JsonObject) : Option Json :=
  (Json.obj claims.entries).walk path.segments

/-! ## Shapes -/

inductive ValueShape
  | auto
  | list
  | space
  | csv
  | scalar
  | dictKeys
  | grants
  | raw
  deriving DecidableEq

/-- `str(value)` -/
def Json.pyStr : Json → String
  | .str s => s
  | value => value.repr

/-- `[str(value)]`, or an error. -/
def coerceScalar (value : Json) (strict : Bool) (target : String) : Except PyException Json :=
  if strict then
    .error (claimTransformError ("Claim " ++ pyRepr target ++ " has unexpected value type " ++
      value.typeName ++ " (" ++ value.repr ++ "); expected a string, list, or dict. " ++
      "Fix the source claim, set an explicit SHAPE, or set strict=False to coerce via str()."))
  else .ok (.arr [.str value.pyStr])

def Json.texts (strings : List String) : Json := .arr (strings.map .str)

/-- `sorted(value.keys())` -/
def sortedKeys (fields : List (String × Json)) : List String :=
  (fields.map Prod.fst).mergeSort fun s t => decide (s ≤ t)

/-- `_auto` -/
def autoShape (value : Json) (strict : Bool) (target : String) : Except PyException Json :=
  match value with
  | .null => .ok (.arr [])
  | .arr values => .ok (.arr values)
  | .obj fields => .ok (.texts (sortedKeys fields))
  | .str s =>
    if ' ' ∈ s.toList then .ok (.texts (pySplitSpace s))
    else if ',' ∈ s.toList then .ok (.texts (pySplit ',' s))
    else .ok (.texts [s])
  | value => coerceScalar value strict target

def asListPassthrough (value : Json) (strict : Bool) (target : String) : Except PyException Json :=
  match value with
  | .null => .ok (.arr [])
  | .arr values => .ok (.arr values)
  | value => coerceScalar value strict target

/-- `_split_string`, with the way to split. -/
def splitString (split : String → List String) (value : Json) (strict : Bool) (target : String) :
    Except PyException Json :=
  match value with
  | .null => .ok (.arr [])
  | .str s => .ok (.texts (split s))
  | .arr values => .ok (.arr values)
  | value => coerceScalar value strict target

def dictKeys (value : Json) (strict : Bool) (target : String) : Except PyException Json :=
  match value with
  | .null => .ok (.arr [])
  | .obj fields => .ok (.texts (sortedKeys fields))
  | value =>
    if strict then
      .error (claimTransformError ("Claim " ++ pyRepr target ++
        " with ValueShape.DICT_KEYS requires a dict, got " ++ value.typeName ++ ": " ++
        value.repr ++ "."))
    else .ok (.arr [])

/-- `_normalize_grants` -/
def checkGrants (value : Json) (target : String) : Except PyException Json :=
  match value with
  | .null => .ok (.arr [])
  | .arr items => do
    let _ ← items.zipIdx.mapM fun item => JwtParser.normalizeGrant item.2 item.1
    return .arr items
  | value => .error (claimTransformError ("Claim " ++ pyRepr target ++
      " (grants) must be a list, got " ++ value.typeName ++ ": " ++ value.repr ++ "."))

def Json.strip (p : String) : Json → Json
  | .str s =>
    if p.toList.isPrefixOf s.toList then .str (String.ofList (s.toList.drop p.length)) else .str s
  | item => item

def applyStrip (p : Option String) : Json → Json
  | .arr items =>
    match p with
    | some p => if p = "" then .arr items else .arr (items.map (Json.strip p))
    | none => .arr items
  | value => value

def normalize (value : Json) (shape : ValueShape) (stripPrefix : Option String) (strict : Bool)
    (target : String) : Except PyException Json :=
  match shape with
  | .raw => .ok value
  | .grants => checkGrants value target
  | .dictKeys => (dictKeys value strict target).map (applyStrip stripPrefix)
  | .scalar =>
    match value with
    | .null => .ok (applyStrip stripPrefix (.arr []))
    | value => .ok (applyStrip stripPrefix (.arr [value]))
  | .space => (splitString pySplitSpace value strict target).map (applyStrip stripPrefix)
  | .csv => (splitString (pySplit ',') value strict target).map (applyStrip stripPrefix)
  | .list => (asListPassthrough value strict target).map (applyStrip stripPrefix)
  | .auto => (autoShape value strict target).map (applyStrip stripPrefix)

/-! ## Rules -/

inductive CanonicalClaim
  | userId
  | roles
  | scopes
  | grants
  | tenantId
  | actor
  | tokenType
  deriving DecidableEq

namespace CanonicalClaim

def value : CanonicalClaim → String
  | .userId => "user_id"
  | .roles => "roles"
  | .scopes => "scopes"
  | .grants => "grants"
  | .tenantId => "tenant_id"
  | .actor => "actor"
  | .tokenType => "token_type"

/-- `target in _SCALAR_TARGETS` -/
def isScalar : CanonicalClaim → Bool
  | .tenantId | .actor | .userId | .tokenType => true
  | _ => false

end CanonicalClaim

structure ClaimRule where
  target : CanonicalClaim
  sources : List ClaimPath := []
  shape : ValueShape := .auto
  stripPrefix : Option String := none
  merge : Bool := false
  required : Bool := false

/-- What `collected` takes over of a shaped value: the elements of a list, or the value itself. -/
def Json.spread : Json → List Json
  | .arr values => values
  | value => [value]

namespace ClaimRule

/-- The shape that stands for `AUTO`, which depends on the target. -/
def effectiveShape (rule : ClaimRule) : ValueShape :=
  if rule.shape = .auto then
    if rule.target = .grants then .grants
    else if rule.target.isScalar then .raw
    else .auto
  else rule.shape

/-- `normalize`, with the options of the rule. -/
def shaped (rule : ClaimRule) (strict : Bool) (raw : Json) : Except PyException Json :=
  normalize raw rule.effectiveShape rule.stripPrefix strict rule.target.value

def raiseIfRequired (rule : ClaimRule) : Except PyException Unit :=
  if rule.required then
    let tried := ", ".intercalate (rule.sources.map fun path => ".".intercalate path.segments)
    .error (claimTransformError ("Required claim " ++ pyRepr rule.target.value ++
      " is missing — tried source path(s): " ++
      (if tried = "" then "(no sources configured)" else tried) ++ "."))
  else .ok ()

/-- The loop of a rule that merges: `collected` and `found_any`. -/
def collect (rule : ClaimRule) (claims : JsonObject) (strict : Bool) :
    List ClaimPath → List Json → Bool → Except PyException (List Json × Bool)
  | [], collected, foundAny => .ok (collected, foundAny)
  | path :: paths, collected, foundAny =>
    match path.read claims with
    | none => rule.collect claims strict paths collected foundAny
    | some raw =>
      match rule.shaped strict raw with
      | .error e => .error e
      | .ok value => rule.collect claims strict paths (collected ++ value.spread) true

/-- The loop along the chain: the value that wins, or `last_shaped`, which is `none` where no source
was found. -/
def search (rule : ClaimRule) (claims : JsonObject) (strict : Bool) :
    List ClaimPath → Option Json → Except PyException (Json ⊕ Option Json)
  | [], lastShaped => .ok (.inr lastShaped)
  | path :: paths, lastShaped =>
    match path.read claims with
    | none => rule.search claims strict paths lastShaped
    | some raw =>
      match rule.shaped strict raw with
      | .error e => .error e
      | .ok value =>
        if value.truthy then .ok (.inl value) else rule.search claims strict paths (some value)

def resolve (rule : ClaimRule) (claims : JsonObject) (strict : Bool) : Except PyException Json := do
  let emptyDefault ← rule.shaped strict .null
  if rule.merge then
    let (collected, foundAny) ← rule.collect claims strict rule.sources [] false
    if !foundAny then
      rule.raiseIfRequired
      return emptyDefault
    return .arr collected
  match ← rule.search claims strict rule.sources none with
  | .inl value => return value
  | .inr none =>
    rule.raiseIfRequired
    return emptyDefault
  | .inr (some lastShaped) => return (lastShaped.notNone).getD emptyDefault

/-! ## What a rule resolves to -/

/-- What the sources that are present are shaped to, in the order of the paths. -/
def shapesAt (rule : ClaimRule) (claims : JsonObject) (strict : Bool) (paths : List ClaimPath) :
    List (Except PyException Json) :=
  (paths.filterMap (·.read claims)).map (rule.shaped strict)

/-- `shapesAt`, for the whole chain. -/
def shapes (rule : ClaimRule) (claims : JsonObject) (strict : Bool) :
    List (Except PyException Json) :=
  rule.shapesAt claims strict rule.sources

def Empty (shape : Except PyException Json) : Prop :=
  ∃ value, shape = .ok value ∧ value.truthy = false

/-- No source is present though one has to be, or one of those that are read is not of the shape. -/
def Fails (rule : ClaimRule) (claims : JsonObject) (strict : Bool) : Prop :=
  (rule.required = true ∧ rule.shapes claims strict = []) ∨
    (rule.merge = true ∧ ∃ e, .error e ∈ rule.shapes claims strict) ∨
    (rule.merge = false ∧ ∃ before e after,
      rule.shapes claims strict = before ++ Except.error e :: after ∧ ∀ shape ∈ before, Empty shape)

/-- Some source is present, and all that are present shape to something empty. -/
def Hollow (rule : ClaimRule) (claims : JsonObject) (strict : Bool) : Prop :=
  rule.shapes claims strict ≠ [] ∧
    if rule.merge then ∀ shape ∈ rule.shapes claims strict, shape = .ok (.arr [])
    else ∀ shape ∈ rule.shapes claims strict, Empty shape

/-- What a rule should resolve to. -/
structure Resolves (rule : ClaimRule) (claims : JsonObject) (strict : Bool) (value : Json) :
    Prop where
  required : rule.required = true → value.truthy = true
  first : rule.merge = false → ∀ before v after,
    rule.shapes claims strict = before ++ .ok v :: after → (∀ shape ∈ before, Empty shape) →
      v.truthy = true → value = v
  union : rule.merge = true → rule.shapes claims strict ≠ [] →
    ∃ values : List Json, rule.shapes claims strict = values.map .ok ∧
      value = .arr (values.flatMap Json.spread)
  absent : rule.shapes claims strict = [] → rule.shaped strict .null = .ok value

variable {rule : ClaimRule} {claims : JsonObject} {strict : Bool}

theorem shaped_null (rule : ClaimRule) (strict : Bool) : Empty (rule.shaped strict .null) := by
  have hstrip : (applyStrip rule.stripPrefix (.arr [])).truthy = false := by
    unfold applyStrip
    cases rule.stripPrefix with
    | none => rfl
    | some p =>
      dsimp only
      split <;> rfl
  unfold shaped normalize
  cases rule.effectiveShape with
  | raw => exact ⟨_, rfl, rfl⟩
  | grants => exact ⟨_, rfl, rfl⟩
  | auto | list | space | csv | scalar | dictKeys => exact ⟨_, rfl, hstrip⟩

theorem shapesAt_none {path : ClaimPath} {paths : List ClaimPath} (h : path.read claims = none) :
    rule.shapesAt claims strict (path :: paths) = rule.shapesAt claims strict paths := by
  simp [shapesAt, h]

theorem shapesAt_some {path : ClaimPath} {paths : List ClaimPath} {raw : Json}
    (h : path.read claims = some raw) :
    rule.shapesAt claims strict (path :: paths) =
      rule.shaped strict raw :: rule.shapesAt claims strict paths := by
  simp [shapesAt, h]

/-- What the merging loop has collected: all the shaped values, unless there is an error. -/
theorem collect_eq (rule : ClaimRule) (claims : JsonObject) (strict : Bool) (paths : List ClaimPath)
    (collected : List Json) (foundAny : Bool) :
    (∃ values : List Json, rule.shapesAt claims strict paths =
        values.map .ok ∧ rule.collect claims strict paths collected foundAny =
          .ok (collected ++ values.flatMap Json.spread, foundAny || !values.isEmpty)) ∨
      ((∃ e, .error e ∈ rule.shapesAt claims strict paths) ∧
        ∃ e, rule.collect claims strict paths collected foundAny = .error e) := by
  induction paths generalizing collected foundAny with
  | nil => exact .inl ⟨[], rfl, by simp [collect]⟩
  | cons path paths ih =>
    cases hread : path.read claims with
    | none =>
      rw [shapesAt_none hread]
      simp only [collect, hread]
      exact ih collected foundAny
    | some raw =>
      rw [shapesAt_some hread]
      simp only [collect, hread]
      cases hshaped : rule.shaped strict raw with
      | error e => exact .inr ⟨⟨e, mem_cons_self⟩, e, rfl⟩
      | ok value =>
        dsimp only
        rcases ih (collected ++ value.spread) true with ⟨values, heq, hcollect⟩ | ⟨⟨e, he⟩, hfail⟩
        · refine .inl ⟨value :: values, by rw [heq]; rfl, ?_⟩
          rw [hcollect]
          simp
        · exact .inr ⟨⟨e, .tail _ he⟩, hfail⟩

/-- What the loop along the chain has found: the first value that is not empty, an error before it,
or the last of the empty values. -/
theorem search_eq (rule : ClaimRule) (claims : JsonObject) (strict : Bool) (paths : List ClaimPath)
    (lastShaped : Option Json) :
    (∃ before v after, rule.shapesAt claims strict paths =
        before ++ Except.ok v :: after ∧ (∀ shape ∈ before, Empty shape) ∧ v.truthy = true ∧
        rule.search claims strict paths lastShaped = .ok (.inl v)) ∨
      (∃ before e after, rule.shapesAt claims strict paths =
        before ++ Except.error e :: after ∧ (∀ shape ∈ before, Empty shape) ∧
        rule.search claims strict paths lastShaped = .error e) ∨
      (∃ values : List Json, rule.shapesAt claims strict paths =
        values.map .ok ∧ (∀ v ∈ values, v.truthy = false) ∧
        rule.search claims strict paths lastShaped =
          .ok (.inr (values.getLast?.or lastShaped))) := by
  induction paths generalizing lastShaped with
  | nil => exact .inr (.inr ⟨[], rfl, by simp, rfl⟩)
  | cons path paths ih =>
    cases hread : path.read claims with
    | none =>
      rw [shapesAt_none hread]
      simp only [search, hread]
      exact ih lastShaped
    | some raw =>
      rw [shapesAt_some hread]
      simp only [search, hread]
      cases hshaped : rule.shaped strict raw with
      | error e => exact .inr (.inl ⟨[], e, _, rfl, by simp, rfl⟩)
      | ok value =>
        dsimp only
        cases htruthy : value.truthy with
        | true => exact .inl ⟨[], value, _, rfl, by simp, htruthy, rfl⟩
        | false =>
          have hempty : Empty (.ok value) := ⟨value, rfl, htruthy⟩
          rcases ih (some value) with ⟨before, v, after, heq, hbefore, hv, hsearch⟩ |
            ⟨before, e, after, heq, hbefore, hsearch⟩ | ⟨values, heq, hvalues, hsearch⟩
          · refine .inl ⟨.ok value :: before, v, after, by rw [heq]; rfl, ?_, hv, hsearch⟩
            exact forall_mem_cons.mpr ⟨hempty, hbefore⟩
          · refine .inr (.inl ⟨.ok value :: before, e, after, by rw [heq]; rfl, ?_, hsearch⟩)
            exact forall_mem_cons.mpr ⟨hempty, hbefore⟩
          · refine .inr (.inr ⟨value :: values, by rw [heq]; rfl, ?_, ?_⟩)
            · exact forall_mem_cons.mpr ⟨htruthy, hvalues⟩
            · rw [if_neg (by simp), hsearch]
              cases hlast : values.getLast? with
              | none => simp [List.getLast?_eq_none_iff.mp hlast]
              | some v => simp [List.getLast?_cons, hlast]

/-- How `resolve` ends. -/
inductive Outcome (rule : ClaimRule) (claims : JsonObject) (strict : Bool) :
    Except PyException Json → Prop
  | missing (e : PyException) (absent : rule.shapes claims strict = [])
      (required : rule.required = true) : Outcome rule claims strict (.error e)
  | default (value : Json) (absent : rule.shapes claims strict = [])
      (required : rule.required = false) (shaped : rule.shaped strict .null = .ok value) :
      Outcome rule claims strict (.ok value)
  | merged (values : List Json) (merge : rule.merge = true) (some : values ≠ [])
      (shapes : rule.shapes claims strict = values.map .ok) :
      Outcome rule claims strict (.ok (.arr (values.flatMap Json.spread)))
  | unmergeable (e : PyException) (merge : rule.merge = true)
      (shapes : ∃ e, .error e ∈ rule.shapes claims strict) : Outcome rule claims strict (.error e)
  | won (v : Json) (merge : rule.merge = false) (before after : List (Except PyException Json))
      (shapes : rule.shapes claims strict = before ++ .ok v :: after)
      (empty : ∀ shape ∈ before, Empty shape) (truthy : v.truthy = true) :
      Outcome rule claims strict (.ok v)
  | broken (e : PyException) (merge : rule.merge = false)
      (before after : List (Except PyException Json))
      (shapes : rule.shapes claims strict = before ++ .error e :: after)
      (empty : ∀ shape ∈ before, Empty shape) : Outcome rule claims strict (.error e)
  | exhausted (v : Json) (merge : rule.merge = false) (some : rule.shapes claims strict ≠ [])
      (empty : ∀ shape ∈ rule.shapes claims strict, Empty shape) (falsy : v.truthy = false) :
      Outcome rule claims strict (.ok v)

theorem outcome_absent {value : Json} (habsent : rule.shapes claims strict = [])
    (hvalue : rule.shaped strict .null = .ok value) :
    Outcome rule claims strict (do rule.raiseIfRequired; return value) := by
  unfold raiseIfRequired
  cases hrequired : rule.required with
  | true => exact .missing _ habsent hrequired
  | false => exact .default value habsent hrequired hvalue

theorem resolve_outcome (rule : ClaimRule) (claims : JsonObject) (strict : Bool) :
    Outcome rule claims strict (rule.resolve claims strict) := by
  obtain ⟨emptyDefault, hdefault, hfalsy⟩ := shaped_null rule strict
  rw [resolve, hdefault]
  cases hmerge : rule.merge with
  | true =>
    rcases rule.collect_eq claims strict rule.sources [] false with ⟨values, hshapes, hcollect⟩ |
      ⟨herror, e, hcollect⟩
    · simp only [hcollect, bind, Except.bind, if_true]
      by_cases hvalues : values = []
      · subst hvalues
        exact outcome_absent hshapes hdefault
      · have hfound : values.isEmpty = false := by simpa using hvalues
        simp only [hfound]
        exact .merged values hmerge hvalues hshapes
    · simp only [hcollect, bind, Except.bind, if_true]
      exact .unmergeable e hmerge herror
  | false =>
    rcases rule.search_eq claims strict rule.sources none with
      ⟨before, v, after, hshapes, hempty, hv, hsearch⟩ |
      ⟨before, e, after, hshapes, hempty, hsearch⟩ | ⟨values, hshapes, hvalues, hsearch⟩
    · simp only [hsearch, bind, Except.bind, Bool.false_eq_true, if_false]
      exact .won v hmerge before after hshapes hempty hv
    · simp only [hsearch, bind, Except.bind, Bool.false_eq_true, if_false]
      exact .broken e hmerge before after hshapes hempty
    · simp only [hsearch, bind, Except.bind, Bool.false_eq_true, if_false]
      cases hlast : values.getLast? with
      | none =>
        rw [List.getLast?_eq_none_iff] at hlast
        subst hlast
        exact outcome_absent hshapes hdefault
      | some v =>
        have hv : v.truthy = false := hvalues v (mem_of_getLast? hlast)
        refine .exhausted _ hmerge ?_ ?_ ?_
        · rw [shapes, hshapes]
          rintro hnil
          simp [map_eq_nil_iff.mp hnil] at hlast
        · rw [shapes, hshapes]
          simp only [mem_map]
          rintro _ ⟨w, hw, rfl⟩
          exact ⟨w, rfl, hvalues w hw⟩
        · cases v <;> first | exact hfalsy | exact hv

/-- The first element that does not satisfy `p` is one. -/
theorem first_unique {α : Type} {p : α → Prop} {before before' after after' : List α} {x y : α}
    (h : before ++ x :: after = before' ++ y :: after') (hbefore : ∀ z ∈ before, p z)
    (hbefore' : ∀ z ∈ before', p z) (hx : ¬p x) (hy : ¬p y) : x = y := by
  classical
  have hfind : (before ++ x :: after).find? (fun z => decide (¬p z)) = some x :=
    List.find?_eq_some_iff_append.mpr
      ⟨by simpa using hx, before, after, rfl, by simpa using hbefore⟩
  have hfind' : (before' ++ y :: after').find? (fun z => decide (¬p z)) = some y :=
    List.find?_eq_some_iff_append.mpr
      ⟨by simpa using hy, before', after', rfl, by simpa using hbefore'⟩
  rw [h, hfind'] at hfind
  exact (Option.some.inj hfind).symm

theorem not_empty_error (e : PyException) : ¬Empty (.error e) := by
  rintro ⟨_, ⟨⟩, -⟩

theorem not_empty_ok {v : Json} (h : v.truthy = true) : ¬Empty (.ok v) := by
  rintro ⟨_, ⟨⟩, hv⟩
  rw [h] at hv
  exact absurd hv (by decide)

theorem resolve_error_iff (rule : ClaimRule) (claims : JsonObject) (strict : Bool) :
    (∃ e, rule.resolve claims strict = .error e) ↔ rule.Fails claims strict := by
  have houtcome := rule.resolve_outcome claims strict
  constructor
  · rintro ⟨e, he⟩
    rw [he] at houtcome
    cases houtcome with
    | missing _ habsent hrequired => exact .inl ⟨hrequired, habsent⟩
    | unmergeable _ hmerge herror => exact .inr (.inl ⟨hmerge, herror⟩)
    | broken _ hmerge before after hshapes hempty =>
      exact .inr (.inr ⟨hmerge, before, e, after, hshapes, hempty⟩)
  · intro hfails
    generalize rule.resolve claims strict = result at houtcome
    cases houtcome with
    | missing e | unmergeable e | broken e => exact ⟨e, rfl⟩
    | default value habsent hrequired =>
      rcases hfails with ⟨h, -⟩ | ⟨-, e, he⟩ | ⟨-, before, e, after, h, -⟩
      · simp [hrequired] at h
      · simp [habsent] at he
      · simp [habsent] at h
    | merged values hmerge hvalues hshapes =>
      rcases hfails with ⟨-, h⟩ | ⟨-, e, he⟩ | ⟨h, -⟩
      · rw [hshapes, map_eq_nil_iff] at h
        exact absurd h hvalues
      · simp [hshapes] at he
      · simp [hmerge] at h
    | won v hmerge before after hshapes hempty hv =>
      rcases hfails with ⟨-, h⟩ | ⟨h, -⟩ | ⟨-, before', e, after', h, hempty'⟩
      · simp [hshapes] at h
      · simp [hmerge] at h
      · rw [hshapes] at h
        exact absurd (first_unique h hempty hempty' (not_empty_ok hv) (not_empty_error e)) (by simp)
    | exhausted v hmerge hpresent hempty =>
      rcases hfails with ⟨-, h⟩ | ⟨h, -⟩ | ⟨-, before, e, after, h, -⟩
      · exact absurd h hpresent
      · simp [hmerge] at h
      · exact absurd (hempty (.error e) (by simp [h])) (not_empty_error e)

theorem flatMap_spread_eq_nil {values : List Json} :
    values.flatMap Json.spread = [] ↔ ∀ v ∈ values, v = .arr [] := by
  rw [flatMap_eq_nil_iff]
  refine forall₂_congr fun v _ => ?_
  cases v <;> simp [Json.spread]

/-- A rule that does not fail resolves to what it should, unless it is required and hollow. -/
theorem resolves_iff {value : Json} (h : rule.resolve claims strict = .ok value) :
    rule.Resolves claims strict value ↔ (rule.required = true → ¬rule.Hollow claims strict) := by
  have houtcome := rule.resolve_outcome claims strict
  rw [h] at houtcome
  cases houtcome with
  | default _ habsent hrequired hshaped =>
    refine iff_of_true ?_ fun _ hhollow => hhollow.1 habsent
    refine ⟨by simp [hrequired], fun _ before v after h => ?_, fun _ h => absurd habsent h,
      fun _ => hshaped⟩
    simp [habsent] at h
  | merged values hmerge hvalues hshapes =>
    have hpresent : rule.shapes claims strict ≠ [] := by simpa [hshapes] using hvalues
    have hhollow : rule.Hollow claims strict ↔ values.flatMap Json.spread = [] := by
      rw [flatMap_spread_eq_nil, Hollow, if_pos hmerge, hshapes]
      simp [hvalues]
    constructor
    · intro hresolves hrequired hh
      have htruthy := hresolves.required hrequired
      rw [hhollow.mp hh] at htruthy
      exact absurd htruthy (by decide)
    · intro hcond
      refine ⟨fun hrequired => ?_, fun h => ?_, fun _ _ => ⟨values, hshapes, rfl⟩,
        fun h => absurd h hpresent⟩
      · have hne := mt hhollow.mpr (hcond hrequired)
        simpa [Json.truthy] using hne
      · simp [hmerge] at h
  | won _ hmerge before after hshapes hempty hv =>
    have hpresent : rule.shapes claims strict ≠ [] := by simp [hshapes]
    refine iff_of_true ?_ fun _ hhollow => ?_
    · refine ⟨fun _ => hv, fun _ before' v after' h hempty' hv' => ?_, fun h => ?_,
        fun h => absurd h hpresent⟩
      · rw [hshapes] at h
        exact Except.ok.inj (first_unique h hempty hempty' (not_empty_ok hv) (not_empty_ok hv'))
      · simp [hmerge] at h
    · rw [Hollow, hmerge] at hhollow
      exact not_empty_ok hv (hhollow.2 (.ok value) (by simp [hshapes]))
  | exhausted _ hmerge hpresent hempty hfalsy =>
    have hhollow : rule.Hollow claims strict := by
      rw [Hollow, hmerge]
      exact ⟨hpresent, hempty⟩
    constructor
    · intro hresolves hrequired
      have htruthy := hresolves.required hrequired
      rw [hfalsy] at htruthy
      exact absurd htruthy (by decide)
    · intro hcond
      refine ⟨fun hrequired => absurd hhollow (hcond hrequired), fun _ before v after h _ hv => ?_,
        fun h => ?_, fun h => absurd h hpresent⟩
      · exact absurd (hempty (.ok v) (by simp [h])) (not_empty_ok hv)
      · simp [hmerge] at h

end ClaimRule

theorem CanonicalClaim.value_inj {c d : CanonicalClaim} : c.value = d.value ↔ c = d := by
  cases c <;> cases d <;> decide

/-! ## Mappings -/

structure ClaimMapping where
  rules : List ClaimRule := []
  metadataFields : List (String × ClaimPath) := []
  strict : Bool := false

/-- `apply` under way: the object that it reads, and its copy that it writes. -/
structure Applying where
  claims : JsonObject
  out : JsonObject

namespace Applying

/-- `out[rule.target.value] = rule.resolve(claims, strict=self.strict)` -/
def writeRule (strict : Bool) (s : Applying) (rule : ClaimRule) : Except PyException Applying := do
  let value ← rule.resolve s.claims strict
  return { s with out := s.out.set rule.target.value value }

/-- `out[key] = value`, if there is one. -/
def writeField (s : Applying) (field : String × ClaimPath) : Applying :=
  { s with out := s.out.setSome field.1 (field.2.read s.claims) }

end Applying

namespace ClaimMapping

def apply (mapping : ClaimMapping) (claims : JsonObject) : Except PyException Applying := do
  let s ← mapping.rules.foldlM (Applying.writeRule mapping.strict) ⟨claims, claims⟩
  return mapping.metadataFields.foldl Applying.writeField s

/-- What `apply` should make of claims. -/
structure Applied (mapping : ClaimMapping) (claims : JsonObject) (s : Applying) : Prop where
  resolved : ∀ rule ∈ mapping.rules, ∃ value,
    rule.resolve claims mapping.strict = .ok value ∧ rule.Resolves claims mapping.strict value
  written : ∀ before (rule : ClaimRule) after value, mapping.rules = before ++ rule :: after →
    (∀ other ∈ after, other.target ≠ rule.target) →
    (∀ field ∈ mapping.metadataFields, field.1 = rule.target.value → field.2.read claims = none) →
    rule.resolve claims mapping.strict = .ok value → s.out.get? rule.target.value = some value
  kept : ∀ key, (∀ rule ∈ mapping.rules, rule.target.value ≠ key) →
    (∀ field ∈ mapping.metadataFields, field.1 ≠ key) → s.out.get? key = claims.get? key
  input : s.claims = claims

variable {mapping : ClaimMapping} {claims : JsonObject} {strict : Bool}

/-- What the rules leave of a copy: the object is as it was, each rule has resolved, and no key is
written that is the target of none. -/
theorem rules_ok {rules : List ClaimRule} {s s' : Applying}
    (h : rules.foldlM (Applying.writeRule strict) s = .ok s') :
    s'.claims = s.claims ∧ (∀ rule ∈ rules, ∃ value, rule.resolve s.claims strict = .ok value) ∧
      ∀ key, (∀ rule ∈ rules, rule.target.value ≠ key) → s'.out.get? key = s.out.get? key := by
  induction rules generalizing s with
  | nil =>
    cases h
    exact ⟨rfl, by simp, fun _ _ => rfl⟩
  | cons rule rules ih =>
    rw [foldlM_cons] at h
    obtain ⟨s₁, hrule, hrest⟩ := exists_of_bind_ok h
    obtain ⟨value, hvalue, hs₁⟩ := exists_of_bind_ok hrule
    cases hs₁
    obtain ⟨hclaims, hresolved, hkept⟩ := ih hrest
    refine ⟨hclaims, forall_mem_cons.mpr ⟨⟨value, hvalue⟩, hresolved⟩, fun key hkey => ?_⟩
    obtain ⟨hne, hkey⟩ := forall_mem_cons.mp hkey
    rw [hkept key hkey, Dict.get?_set, if_neg hne.symm]

theorem rules_error_iff (rules : List ClaimRule) (s : Applying) :
    (∃ e, rules.foldlM (Applying.writeRule strict) s = .error e) ↔
      ∃ rule ∈ rules, rule.Fails s.claims strict := by
  induction rules generalizing s with
  | nil =>
    refine iff_of_false ?_ (by simp)
    rintro ⟨_, ⟨⟩⟩
  | cons rule rules ih =>
    rw [foldlM_cons, exists_mem_cons_iff, ← rule.resolve_error_iff]
    cases hrule : rule.resolve s.claims strict with
    | error e =>
      refine iff_of_true ⟨e, ?_⟩ (.inl ⟨e, rfl⟩)
      simp [Applying.writeRule, hrule, bind, Except.bind]
    | ok value =>
      have hwrite : Applying.writeRule strict s rule =
          .ok { s with out := s.out.set rule.target.value value } := by
        simp [Applying.writeRule, hrule, bind, Except.bind, pure, Except.pure]
      rw [hwrite]
      simpa [bind, Except.bind] using ih { s with out := s.out.set rule.target.value value }

theorem fields_frame (fields : List (String × ClaimPath)) (s : Applying) :
    (fields.foldl Applying.writeField s).claims = s.claims ∧
      ∀ key, (∀ field ∈ fields, field.1 = key → field.2.read s.claims = none) →
        (fields.foldl Applying.writeField s).out.get? key = s.out.get? key := by
  induction fields generalizing s with
  | nil => exact ⟨rfl, fun _ _ => rfl⟩
  | cons field fields ih =>
    obtain ⟨hclaims, hkept⟩ := ih (s.writeField field)
    refine ⟨hclaims, fun key hkey => ?_⟩
    obtain ⟨hhead, htail⟩ := forall_mem_cons.mp hkey
    rw [foldl_cons, hkept key htail]
    unfold Applying.writeField
    dsimp only
    rw [Dict.get?_setSome]
    by_cases h : field.1 = key
    · simp [hhead h]
    · simp [Ne.symm h]

theorem apply_error_iff (mapping : ClaimMapping) (claims : JsonObject) :
    (∃ e, mapping.apply claims = .error e) ↔
      ∃ rule ∈ mapping.rules, rule.Fails claims mapping.strict := by
  rw [← rules_error_iff mapping.rules ⟨claims, claims⟩, apply]
  cases mapping.rules.foldlM (Applying.writeRule mapping.strict) ⟨claims, claims⟩ with
  | error e => simp [bind, Except.bind]
  | ok s => simp [bind, Except.bind, pure, Except.pure]

/-- The last rule of a target decides what the copy has under it. -/
theorem rules_written {before after : List ClaimRule} {rule : ClaimRule} {s s' : Applying}
    {value : Json} (h : (before ++ rule :: after).foldlM (Applying.writeRule strict) s = .ok s')
    (hlast : ∀ other ∈ after, other.target ≠ rule.target)
    (hvalue : rule.resolve s.claims strict = .ok value) :
    s'.out.get? rule.target.value = some value := by
  rw [foldlM_append] at h
  obtain ⟨s₁, hbefore, h⟩ := exists_of_bind_ok h
  rw [foldlM_cons] at h
  obtain ⟨s₂, hrule, hafter⟩ := exists_of_bind_ok h
  obtain ⟨value', hvalue', hs₂⟩ := exists_of_bind_ok hrule
  rw [(rules_ok hbefore).1, hvalue] at hvalue'
  cases hvalue'
  cases hs₂
  rw [(rules_ok hafter).2.2]
  · simp
  · exact fun other hother heq => hlast other hother (CanonicalClaim.value_inj.mp heq)

/-- **What `apply` makes of claims is what it should be**, exactly if a rule fails or none that is
required is hollow: has sources that are present, all of which shape to something empty. -/
theorem applied_iff (mapping : ClaimMapping) (claims : JsonObject) :
    (∀ s, mapping.apply claims = .ok s → mapping.Applied claims s) ↔
      (∃ rule ∈ mapping.rules, rule.Fails claims mapping.strict) ∨
        ∀ rule ∈ mapping.rules, rule.required = true → ¬rule.Hollow claims mapping.strict := by
  rw [← apply_error_iff]
  constructor
  · intro happlied
    cases happly : mapping.apply claims with
    | error e => exact .inl ⟨e, rfl⟩
    | ok s =>
      right
      intro rule hrule
      obtain ⟨value, hvalue, hresolves⟩ := (happlied s happly).resolved rule hrule
      exact (ClaimRule.resolves_iff hvalue).mp hresolves
  · rintro hcond s happly
    rcases hcond with ⟨e, he⟩ | hsound
    · simp [he] at happly
    obtain ⟨s₁, hrules, hs⟩ := exists_of_bind_ok happly
    cases hs
    obtain ⟨hclaims, hresolved, hkept⟩ := rules_ok hrules
    obtain ⟨hinput, hframe⟩ := fields_frame mapping.metadataFields s₁
    refine ⟨fun rule hrule => ?_, fun before rule after value hsplit hlast hfields hvalue => ?_,
      fun key hkey hfields => ?_, hinput.trans hclaims⟩
    · obtain ⟨value, hvalue⟩ := hresolved rule hrule
      exact ⟨value, hvalue, (ClaimRule.resolves_iff hvalue).mpr (hsound rule hrule)⟩
    · rw [hsplit] at hrules
      rw [hframe _ fun field hfield heq => by rw [hclaims]; exact hfields field hfield heq]
      exact rules_written hrules hlast hvalue
    · rw [hframe key fun field hfield heq => absurd heq (hfields field hfield), hkept key hkey]

/-- `roles` is required and there, but there is no role in it. -/
theorem required_role_missing :
    ∃ s, (ClaimMapping.mk [{ target := .roles, sources := [⟨["roles"]⟩], required := true }] []
        false).apply (Dict.empty.set "roles" (.arr [])) = .ok s ∧
      ¬(ClaimMapping.mk [{ target := .roles, sources := [⟨["roles"]⟩], required := true }] []
        false).Applied (Dict.empty.set "roles" (.arr [])) s := by
  refine ⟨⟨Dict.empty.set "roles" (.arr []),
    (Dict.empty.set "roles" (.arr [])).set "roles" (.arr [])⟩, rfl, fun happlied => ?_⟩
  obtain ⟨value, hvalue, hresolves⟩ := happlied.resolved _ mem_cons_self
  cases hvalue
  exact absurd (hresolves.required rfl) (by decide)

end ClaimMapping

end Varco
