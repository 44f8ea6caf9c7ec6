import Varco.Jwt.RoundTrip
import Varco.Jwt.Transform

/-!
# Roles out of foreign claims

`JwtParser._build_auth_ctx` of `varco_core.jwt.parser` on the claims that a mapping has made, of
whatever types. `buildContext` keeps its sets as they come out of `frozenset(value)`: as lists of
values of any type, where a value that cannot be hashed is a `TypeError`. The sources that decide a
target are `ClaimMapping.mapped`, and their strings are those that a role may be.
-/

namespace Varco

open List JwtParser

/-! ## Sets of any values -/

namespace Json

/-- `hash(value)`, or its error. -/
def hash : Json → Except PyException Unit
  | .arr _ => .error ⟨"TypeError", "unhashable type: 'list'"⟩
  | .obj _ => .error ⟨"TypeError", "unhashable type: 'dict'"⟩
  | _ => .ok ()

/-- What `iter(value)` yields, if it yields something. -/
def elements : Json → List Json
  | .arr values => values
  | .str s => s.toList.map fun c => .str (String.singleton c)
  | .obj fields => fields.map fun field => .str field.1
  | _ => []

/-- `for x in value` raises no `TypeError`. -/
def Iterable : Json → Prop
  | .arr _ | .str _ | .obj _ => True
  | _ => False

/-- A set of whole texts: a list of texts, an object, or a text of one character at most. -/
def IsTextSet : Json → Prop
  | .arr values => ∀ value ∈ values, ∃ s, value = .str s
  | .obj _ => True
  | .str s => s.toList.length ≤ 1
  | _ => False

def asText : Json → Option String
  | .str s => some s
  | _ => none

/-- The texts of a value: those of its elements, its keys, or itself. -/
def textsOf : Json → List String
  | .arr values => values.filterMap asText
  | .obj fields => fields.map Prod.fst
  | .str s => [s]
  | _ => []

end Json

/-- `frozenset(value)` -/
def frozensetOf (value : Json) : Except PyException (List Json) := do
  let values ← value.iterate
  values.forM Json.hash
  return values

/-- `AuthContext`, with sets of any values. -/
structure ForeignContext where
  userId : Json
  roles : List Json
  scopes : List Json
  grants : List ResourceGrant
  metadata : JsonObject

namespace JwtParser

def claimOr (canonical : JsonObject) (target : CanonicalClaim) : Json :=
  (canonical.get? target.value).getD (.arr [])

def isBlank (canonical : JsonObject) (grantsRaw : List (List (String × Json))) : Bool :=
  !(claimOr canonical .roles).truthy && !(claimOr canonical .scopes).truthy && grantsRaw.isEmpty &&
    ((canonical.get? "tenant_id").getD .null).notNone.isNone &&
    ((canonical.get? "actor").getD .null).notNone.isNone

/-- `_build_auth_ctx` -/
def buildContext (canonical : JsonObject) : Except PyException (Option ForeignContext) := do
  let grantsRaw ← normalizeGrants (claimOr canonical .grants)
  if isBlank canonical grantsRaw then
    return none
  let grants ← grantsRaw.mapM readGrant
  let metadata := (Dict.empty.setSome "tenant_id"
    ((canonical.get? "tenant_id").getD .null).notNone).setSome "actor"
    ((canonical.get? "actor").getD .null).notNone
  let roles ← frozensetOf (claimOr canonical .roles)
  let scopes ← frozensetOf (claimOr canonical .scopes)
  return some {
    userId := (canonical.get? "user_id").getD ((canonical.get? "sub").getD .null)
    roles
    scopes
    grants
    metadata }

end JwtParser

/-! ## The sources of a target -/

/-- `item[len(prefix):]`, where there is a prefix that `item` starts with. -/
def stripText : Option String → String → String
  | some p, s =>
    if p = "" then s
    else if p.toList.isPrefixOf s.toList then String.ofList (s.toList.drop p.length) else s
  | none, s => s

/-- A value that a target is read from, with the shape and the prefix that its rule gives. -/
structure MappedSource where
  shape : ValueShape
  stripPrefix : Option String
  raw : Json

namespace MappedSource

/-- The strings of the value as its shape sees them: the texts of a list, the tokens of a delimited
text, the keys of an object, or a scalar itself. -/
def candidates : ValueShape → Json → List String
  | .space, .str s => pySplitSpace s
  | .csv, .str s => pySplit ',' s
  | .auto, .str s =>
    if ' ' ∈ s.toList then pySplitSpace s else if ',' ∈ s.toList then pySplit ',' s else [s]
  | _, .bool b => [(Json.bool b).repr]
  | _, .int n => [(Json.int n).repr]
  | _, .float x => [(Json.float x).repr]
  | _, value => value.textsOf

/-- `candidates`, after prefix stripping. -/
def strings (source : MappedSource) : List String :=
  (candidates source.shape source.raw).map (stripText source.stripPrefix)

/-- The text that `LIST`, `SPACE` and `CSV` make of an object. -/
def coerced (source : MappedSource) : List String :=
  match source.shape, source.raw with
  | .list, .obj fields | .space, .obj fields | .csv, .obj fields =>
    [stripText source.stripPrefix (Json.obj fields).repr]
  | _, _ => []

end MappedSource

/-- The prefix, which `RAW` and `GRANTS` leave. -/
def ClaimRule.stripped (rule : ClaimRule) : Option String :=
  match rule.effectiveShape with
  | .raw | .grants => none
  | _ => rule.stripPrefix

def truthyShape : Except PyException Json → Bool
  | .ok value => value.truthy
  | .error _ => false

/-- The sources that a rule takes its value from: all that are present, or the first of them that
shapes to something. -/
def ClaimRule.used (rule : ClaimRule) (claims : JsonObject) (strict : Bool) : List Json :=
  if rule.merge then rule.sources.filterMap (·.read claims)
  else ((rule.sources.filterMap (·.read claims)).find?
    fun raw => truthyShape (rule.shaped strict raw)).toList

namespace ClaimMapping

def fieldAt (mapping : ClaimMapping) (claims : JsonObject) (key : String) : Option Json :=
  mapping.metadataFields.reverse.findSome? fun field =>
    if field.1 = key then field.2.read claims else none

def ruleOf (mapping : ClaimMapping) (target : CanonicalClaim) : Option ClaimRule :=
  mapping.rules.reverse.find? fun rule => rule.target = target

/-- The values that a target is read from: that of a metadata field of its name, those that its rule
uses, or the claim of its name. -/
def mapped (mapping : ClaimMapping) (claims : JsonObject) (target : CanonicalClaim) :
    List MappedSource :=
  match mapping.fieldAt claims target.value with
  | some raw => [⟨.raw, none, raw⟩]
  | none =>
    match mapping.ruleOf target with
    | some rule => (rule.used claims mapping.strict).map (⟨rule.effectiveShape, rule.stripped, ·⟩)
    | none => (claims.get? target.value).toList.map (⟨.raw, none, ·⟩)

def strings (mapping : ClaimMapping) (claims : JsonObject) (target : CanonicalClaim) :
    List String :=
  (mapping.mapped claims target).flatMap MappedSource.strings

/-- The objects among the sources of a target that it takes as texts. -/
def coerced (mapping : ClaimMapping) (claims : JsonObject) (target : CanonicalClaim) :
    List String :=
  (mapping.mapped claims target).flatMap MappedSource.coerced

/-- `_build_auth_ctx` on the mapped claims. -/
def readContext (mapping : ClaimMapping) (claims : JsonObject) :
    Except PyException (Option ForeignContext) := do
  let s ← mapping.apply claims
  buildContext s.out

/-- Reading claims raises nothing but what it should, and no role or scope is made up. -/
structure ReadsClaims (mapping : ClaimMapping) (claims : JsonObject) : Prop where
  raised : ∀ e, mapping.readContext claims = .error e →
    e.typeName = "ClaimTransformError" ∨ ∃ action, readAction action = .error e
  roles : ∀ ctx, mapping.readContext claims = .ok (some ctx) →
    ∀ role ∈ ctx.roles, ∃ s ∈ mapping.strings claims .roles, role = .str s
  scopes : ∀ ctx, mapping.readContext claims = .ok (some ctx) →
    ∀ scope ∈ ctx.scopes, ∃ s ∈ mapping.strings claims .scopes, scope = .str s

/-- The mapped claims hold a set of whole texts under a target, none of which is made of an object,
unless it also occurs elsewhere. -/
def Serves (mapping : ClaimMapping) (claims : JsonObject) (out : JsonObject)
    (target : CanonicalClaim) : Prop :=
  (claimOr out target).IsTextSet ∧
    ∀ s ∈ mapping.coerced claims target, s ∈ mapping.strings claims target

/-- The claims can be read: before the first grant with an unknown action the actions are something
to iterate over, and if there is no such grant roles and scopes are sets of whole texts. -/
def Readable (mapping : ClaimMapping) (claims : JsonObject) : Prop :=
  ∀ s grants, mapping.apply claims = .ok s →
    normalizeGrants (claimOr s.out .grants) = .ok grants →
    isBlank s.out grants = false →
      (∀ before (g : List (String × Json)) after, grants = before ++ g :: after →
        (∀ g' ∈ before, (readGrant g').isOk) →
          ((g.lookup "actions").getD .null).Iterable) ∧
      ((∀ g ∈ grants, (readGrant g).isOk) →
        mapping.Serves claims s.out .roles ∧ mapping.Serves claims s.out .scopes)

end ClaimMapping

/-! ## What shaping does to texts -/

theorem Json.asText_strip (p : String) (item : Json) (hp : p ≠ "") :
    (item.strip p).asText = item.asText.map (stripText (some p)) := by
  cases item with
  | str s =>
    simp only [Json.strip, stripText, if_neg hp, Json.asText, Option.map_some]
    by_cases hprefix : p.toList.isPrefixOf s.toList = true
    · rw [if_pos hprefix, if_pos hprefix]
    · rw [if_neg hprefix, if_neg hprefix]
  | _ => rfl

/-- Prefix stripping works on the texts of a list alone. -/
theorem textsOf_applyStrip (p : Option String) (values : List Json) :
    (applyStrip p (.arr values)).textsOf = (Json.arr values).textsOf.map (stripText p) := by
  have hid : ∀ l : List String, l.map (stripText none) = l ∧ l.map (stripText (some "")) = l := by
    intro l
    exact ⟨map_id'' (fun _ => rfl) l, map_id'' (fun _ => rfl) l⟩
  cases p with
  | none => exact (hid _).1.symm
  | some p =>
    by_cases hp : p = ""
    · subst hp
      exact (hid _).2.symm
    · simp only [applyStrip, if_neg hp, Json.textsOf, filterMap_map, map_filterMap]
      refine filterMap_congr fun item _ => ?_
      exact Json.asText_strip p item hp

theorem textsOf_texts (l : List String) : (Json.texts l).textsOf = l := by
  simp only [Json.texts, Json.textsOf, filterMap_map]
  exact (filterMap_congr fun _ _ => rfl).trans filterMap_some

theorem mem_sortedKeys {fields : List (String × Json)} {s : String} :
    s ∈ sortedKeys fields ↔ s ∈ fields.map Prod.fst :=
  (mergeSort_perm _ _).mem_iff

/-- The elements that a shaped value adds have no other texts than the value. -/
theorem textsOf_spread {value : Json} {s : String} (h : s ∈ value.spread.filterMap Json.asText) :
    s ∈ value.textsOf := by
  cases value with
  | arr values => exact h
  | str t => exact h
  | _ => simp [Json.spread, Json.asText] at h

namespace MappedSource

/-- What is shaped before prefix stripping: the texts come from the source, or one is made of an
object. -/
structure Shaped (shape : ValueShape) (raw value : Json) : Prop where
  isList : ∃ values, value = .arr values
  texts : ∀ s ∈ value.textsOf,
    s ∈ candidates shape raw ∨ ∃ fields, raw = .obj fields ∧ s = raw.repr ∧
      (shape = .list ∨ shape = .space ∨ shape = .csv)
  coerced : ∀ fields, raw = .obj fields → (shape = .list ∨ shape = .space ∨ shape = .csv) →
    raw.repr ∈ value.textsOf

theorem coerceScalar_ok {raw value : Json} {strict : Bool} {target : String}
    (h : coerceScalar raw strict target = .ok value) : value = .arr [.str raw.pyStr] := by
  unfold coerceScalar at h
  split at h
  · cases h
  · exact (Except.ok.inj h).symm

section

variable {raw value : Json} {strict : Bool} {target : String}

theorem Shaped.ofTexts {shape : ValueShape} {l : List String}
    (htexts : ∀ s ∈ l, s ∈ candidates shape raw ∨ ∃ fields, raw = .obj fields ∧ s = raw.repr ∧
      (shape = .list ∨ shape = .space ∨ shape = .csv))
    (hcoerced : ∀ fields, raw = .obj fields → (shape = .list ∨ shape = .space ∨ shape = .csv) →
      raw.repr ∈ l) : Shaped shape raw (.texts l) :=
  ⟨⟨_, rfl⟩, by rwa [textsOf_texts], by rwa [textsOf_texts]⟩

theorem Shaped.auto (h : autoShape raw strict target = .ok value) : Shaped .auto raw value := by
  unfold autoShape at h
  cases raw with
  | null | arr values =>
    cases h
    exact ⟨⟨_, rfl⟩, fun s hs => .inl hs, by simp⟩
  | obj fields =>
    cases h
    exact .ofTexts (fun s hs => .inl (mem_sortedKeys.mp hs)) (by simp)
  | str s =>
    dsimp only at h
    by_cases hspace : ' ' ∈ s.toList
    · rw [if_pos hspace] at h
      cases h
      refine .ofTexts (fun t ht => .inl ?_) (by simp)
      rwa [candidates, if_pos hspace]
    by_cases hcomma : ',' ∈ s.toList
    · rw [if_neg hspace, if_pos hcomma] at h
      cases h
      refine .ofTexts (fun t ht => .inl ?_) (by simp)
      rwa [candidates, if_neg hspace, if_pos hcomma]
    · rw [if_neg hspace, if_neg hcomma] at h
      cases h
      refine .ofTexts (fun t ht => .inl ?_) (by simp)
      rwa [candidates, if_neg hspace, if_neg hcomma]
  | bool b | int n | float x =>
    obtain rfl := coerceScalar_ok h
    exact ⟨⟨_, rfl⟩, fun s hs => .inl hs, by simp⟩

theorem Shaped.list (h : asListPassthrough raw strict target = .ok value) :
    Shaped .list raw value := by
  unfold asListPassthrough at h
  cases raw with
  | null | arr values =>
    cases h
    exact ⟨⟨_, rfl⟩, fun s hs => .inl hs, by simp⟩
  | obj fields =>
    obtain rfl := coerceScalar_ok h
    exact ⟨⟨_, rfl⟩, fun s hs => .inr ⟨fields, rfl, mem_singleton.mp hs, .inl rfl⟩,
      fun _ _ _ => mem_singleton.mpr rfl⟩
  | str s | bool b | int n | float x =>
    obtain rfl := coerceScalar_ok h
    exact ⟨⟨_, rfl⟩, fun s hs => .inl hs, by simp⟩

theorem Shaped.split {shape : ValueShape} {cut : String → List String}
    (hshape : shape = .space ∧ cut = pySplitSpace ∨ shape = .csv ∧ cut = pySplit ',')
    (h : splitString cut raw strict target = .ok value) : Shaped shape raw value := by
  have hone : shape = .list ∨ shape = .space ∨ shape = .csv := by
    rcases hshape with ⟨rfl, -⟩ | ⟨rfl, -⟩ <;> simp
  unfold splitString at h
  cases raw with
  | null =>
    cases h
    exact ⟨⟨_, rfl⟩, by simp [Json.textsOf], by simp⟩
  | arr values =>
    cases h
    refine ⟨⟨_, rfl⟩, fun s hs => .inl ?_, by simp⟩
    rcases hshape with ⟨rfl, -⟩ | ⟨rfl, -⟩ <;> exact hs
  | str s =>
    cases h
    refine .ofTexts (fun t ht => .inl ?_) (by simp)
    rcases hshape with ⟨rfl, rfl⟩ | ⟨rfl, rfl⟩ <;> exact ht
  | obj fields =>
    obtain rfl := coerceScalar_ok h
    exact ⟨⟨_, rfl⟩, fun s hs => .inr ⟨fields, rfl, mem_singleton.mp hs, hone⟩,
      fun _ _ _ => mem_singleton.mpr rfl⟩
  | bool b | int n | float x =>
    obtain rfl := coerceScalar_ok h
    refine ⟨⟨_, rfl⟩, fun s hs => .inl ?_, by simp⟩
    rcases hshape with ⟨rfl, -⟩ | ⟨rfl, -⟩ <;> exact hs

theorem Shaped.dictKeys (h : Varco.dictKeys raw strict target = .ok value) :
    Shaped .dictKeys raw value := by
  unfold Varco.dictKeys at h
  cases raw with
  | obj fields =>
    cases h
    exact .ofTexts (fun s hs => .inl (mem_sortedKeys.mp hs)) (by simp)
  | null =>
    cases h
    exact ⟨⟨_, rfl⟩, by simp [Json.textsOf], by simp⟩
  | arr values | str s | bool b | int n | float x =>
    dsimp only at h
    split at h
    · cases h
    · cases h
      exact ⟨⟨_, rfl⟩, by simp [Json.textsOf], by simp⟩

theorem Shaped.scalar (raw : Json) : Shaped .scalar raw (.arr [raw]) := by
  refine ⟨⟨_, rfl⟩, fun s hs => .inl ?_, by simp⟩
  cases raw with
  | str t => exact hs
  | _ => simp [Json.textsOf, Json.asText] at hs

end

/-- What a source is shaped to: a list, or the value itself, whose texts are strings of the source
or made of an object. -/
structure Yields (source : MappedSource) (value : Json) : Prop where
  kind : (∃ values, value = .arr values) ∨
    source.shape = .raw ∧ source.stripPrefix = none ∧ value = source.raw
  texts : ∀ s ∈ value.textsOf, s ∈ source.strings ∨ s ∈ source.coerced
  coerced : ∀ s ∈ source.coerced, s ∈ value.textsOf

theorem Shaped.strip {shape : ValueShape} {raw value : Json} {p : Option String}
    (h : Shaped shape raw value) : Yields ⟨shape, p, raw⟩ (applyStrip p value) := by
  obtain ⟨values, rfl⟩ := h.isList
  have hlist : ∃ l, applyStrip p (.arr values) = .arr l := by
    unfold applyStrip
    cases p with
    | none => exact ⟨_, rfl⟩
    | some p =>
      dsimp only
      split <;> exact ⟨_, rfl⟩
  refine ⟨.inl hlist, fun s hs => ?_, fun s hs => ?_⟩
  · rw [textsOf_applyStrip] at hs
    obtain ⟨t, ht, rfl⟩ := mem_map.mp hs
    rcases h.texts t ht with ht | ⟨fields, rfl, rfl, hshape⟩
    · exact .inl (mem_map_of_mem ht)
    · right
      rcases hshape with rfl | rfl | rfl <;> exact mem_singleton.mpr rfl
  · rw [textsOf_applyStrip]
    have hmap : ∀ fields, raw = .obj fields → (shape = .list ∨ shape = .space ∨ shape = .csv) →
        stripText p (Json.obj fields).repr ∈ (Json.arr values).textsOf.map (stripText p) := by
      rintro fields rfl hshape
      exact mem_map_of_mem (h.coerced fields rfl hshape)
    cases raw with
    | obj fields =>
      cases shape with
      | list | space | csv =>
        rw [mem_singleton.mp hs]
        exact hmap fields rfl (by simp)
      | _ => exact absurd hs not_mem_nil
    | _ => cases shape <;> exact absurd hs not_mem_nil

theorem Yields.raw {shape : ValueShape} (raw : Json) (hshape : shape = .raw ∨ shape = .grants)
    (hkind : (∃ values, raw = .arr values) ∨ shape = .raw) : Yields ⟨shape, none, raw⟩ raw := by
  have hnone : (MappedSource.mk shape none raw).coerced = [] := by
    rcases hshape with rfl | rfl <;> cases raw <;> rfl
  refine ⟨?_, fun s hs => .inl ?_, by simp [hnone]⟩
  · rcases hkind with h | h
    · exact .inl h
    · exact .inr ⟨h, rfl, rfl⟩
  · have hmem : s ∈ candidates shape raw := by
      rcases hshape with rfl | rfl <;> cases raw <;>
        first | exact hs | exact absurd hs not_mem_nil
    simpa [strings, stripText] using hmem

/-- What a source makes of an object is an element of the list that it is shaped to. -/
theorem Yields.mem_of_coerced {source : MappedSource} {value : Json} (h : Yields source value)
    {t : String} (ht : t ∈ source.coerced) :
    ∃ values, value = .arr values ∧ Json.str t ∈ values := by
  have htext := h.coerced t ht
  rcases h.kind with ⟨values, rfl⟩ | ⟨hshape, -, -⟩
  · obtain ⟨item, hitem, htext⟩ := mem_filterMap.mp htext
    cases item with
    | str s =>
      cases htext
      exact ⟨values, rfl, hitem⟩
    | _ => cases htext
  · rw [MappedSource.coerced, hshape] at ht
    exact absurd ht not_mem_nil

end MappedSource

theorem ClaimRule.shaped_yields {rule : ClaimRule} {strict : Bool} {raw value : Json}
    (h : rule.shaped strict raw = .ok value) :
    MappedSource.Yields ⟨rule.effectiveShape, rule.stripped, raw⟩ value := by
  unfold shaped normalize at h
  unfold stripped
  cases hshape : rule.effectiveShape with
  | raw =>
    rw [hshape] at h
    cases h
    exact .raw raw (.inl rfl) (.inr rfl)
  | grants =>
    rw [hshape] at h
    unfold checkGrants at h
    cases raw with
    | null =>
      cases h
      exact ⟨.inl ⟨_, rfl⟩, by simp [Json.textsOf], fun _ h => absurd h not_mem_nil⟩
    | arr items =>
      obtain ⟨_, -, h⟩ := exists_of_bind_ok h
      cases h
      exact .raw _ (.inr rfl) (.inl ⟨_, rfl⟩)
    | _ => cases h
  | dictKeys =>
    rw [hshape] at h
    obtain ⟨_, hkeys, rfl⟩ := exists_of_map_ok h
    exact (MappedSource.Shaped.dictKeys hkeys).strip
  | scalar =>
    rw [hshape] at h
    have hnull : MappedSource.Shaped .scalar .null (.arr []) :=
      ⟨⟨_, rfl⟩, by simp [Json.textsOf], by simp⟩
    cases raw with
    | null =>
      cases h
      exact hnull.strip
    | _ =>
      cases h
      exact (MappedSource.Shaped.scalar _).strip
  | space =>
    rw [hshape] at h
    obtain ⟨_, hsplit, rfl⟩ := exists_of_map_ok h
    exact (MappedSource.Shaped.split (.inl ⟨rfl, rfl⟩) hsplit).strip
  | csv =>
    rw [hshape] at h
    obtain ⟨_, hsplit, rfl⟩ := exists_of_map_ok h
    exact (MappedSource.Shaped.split (.inr ⟨rfl, rfl⟩) hsplit).strip
  | list =>
    rw [hshape] at h
    obtain ⟨_, hlist, rfl⟩ := exists_of_map_ok h
    exact (MappedSource.Shaped.list hlist).strip
  | auto =>
    rw [hshape] at h
    obtain ⟨_, hauto, rfl⟩ := exists_of_map_ok h
    exact (MappedSource.Shaped.auto hauto).strip

/-! ## What the mapped claims hold -/

/-- The value of a rule comes from the sources that it uses, or is empty. -/
theorem ClaimRule.resolve_used {rule : ClaimRule} {claims : JsonObject} {strict : Bool}
    {value : Json} (h : rule.resolve claims strict = .ok value) :
    (value.truthy = false ∧ rule.used claims strict = []) ∨
      (∃ values : List Json, (rule.used claims strict).map (rule.shaped strict) = values.map .ok ∧
        value = .arr (values.flatMap Json.spread)) ∨
      ∃ raw, rule.used claims strict = [raw] ∧ rule.shaped strict raw = .ok value := by
  have houtcome := rule.resolve_outcome claims strict
  rw [h] at houtcome
  have hshapes : rule.shapes claims strict =
      (rule.sources.filterMap (·.read claims)).map (rule.shaped strict) := rfl
  cases houtcome with
  | default _ habsent hrequired hshaped =>
    left
    obtain ⟨v, hv, hfalsy⟩ := rule.shaped_null strict
    rw [hshaped] at hv
    cases hv
    rw [hshapes, map_eq_nil_iff] at habsent
    refine ⟨hfalsy, ?_⟩
    rw [used, habsent]
    split <;> rfl
  | merged values hmerge hvalues hmerged =>
    right; left
    refine ⟨values, ?_, rfl⟩
    rw [used, if_pos hmerge, ← hshapes, hmerged]
  | won _ hmerge before after hwon hempty hv =>
    right; right
    rw [hshapes] at hwon
    obtain ⟨raws, rest, hraws, hbefore, hrest⟩ := map_eq_append_iff.mp hwon
    obtain ⟨raw, after', rfl, hraw, -⟩ := map_eq_cons_iff.mp hrest
    refine ⟨raw, ?_, hraw⟩
    have hfind : (rule.sources.filterMap (·.read claims)).find?
        (fun raw => truthyShape (rule.shaped strict raw)) = some raw := by
      refine List.find?_eq_some_iff_append.mpr ⟨by rw [hraw]; exact hv, raws, after', hraws, ?_⟩
      intro r hr
      obtain ⟨w, hw, hfalsy⟩ := hempty (rule.shaped strict r) (hbefore ▸ mem_map_of_mem hr)
      rw [hw]
      simp [truthyShape, hfalsy]
    rw [used, hmerge, hfind]
    rfl
  | exhausted _ hmerge hpresent hempty hfalsy =>
    left
    refine ⟨hfalsy, ?_⟩
    have hnone : (rule.sources.filterMap (·.read claims)).find?
        (fun raw => truthyShape (rule.shaped strict raw)) = none := by
      refine List.find?_eq_none.mpr fun r hr => ?_
      obtain ⟨w, hw, hfalsy⟩ := hempty (rule.shaped strict r) (hshapes ▸ mem_map_of_mem hr)
      rw [hw]
      simp [truthyShape, hfalsy]
    rw [used, hmerge, hnone]
    rfl

/-- Each element of the second list has a partner in the first. -/
theorem partner_of_mem {α β : Type} {R : α → β → Prop} {l : List α} {l' : List β}
    (h : List.Forall₂ R l l') {b : β} (hb : b ∈ l') : ∃ a ∈ l, R a b := by
  induction h with
  | nil => exact absurd hb not_mem_nil
  | cons hab _ ih =>
    rcases mem_cons.mp hb with rfl | hb
    · exact ⟨_, mem_cons_self, hab⟩
    · obtain ⟨a, ha, hR⟩ := ih hb
      exact ⟨a, .tail _ ha, hR⟩

namespace ClaimMapping

open MappedSource (Yields)

variable {mapping : ClaimMapping} {claims : JsonObject} {s : Applying}

theorem get?_writeFields (fields : List (String × ClaimPath)) (s : Applying) (key : String) :
    (fields.foldl Applying.writeField s).out.get? key =
      (fields.reverse.findSome? fun field =>
        if field.1 = key then field.2.read s.claims else none).or (s.out.get? key) := by
  induction fields generalizing s with
  | nil => rfl
  | cons field fields ih =>
    rw [foldl_cons, ih, reverse_cons, List.findSome?_append, Option.or_assoc]
    congr 1
    unfold Applying.writeField
    dsimp only
    rw [Dict.get?_setSome, List.findSome?_singleton]
    by_cases h : field.1 = key
    · simp [h]
    · simp [h, Ne.symm h]

variable (h : mapping.apply claims = .ok s)

include h

theorem get?_apply (target : CanonicalClaim) :
    (∃ raw, mapping.fieldAt claims target.value = some raw ∧ s.out.get? target.value = some raw) ∨
      (mapping.fieldAt claims target.value = none ∧ ∃ rule value,
        mapping.ruleOf target = some rule ∧ rule.resolve claims mapping.strict = .ok value ∧
          s.out.get? target.value = some value) ∨
      (mapping.fieldAt claims target.value = none ∧ mapping.ruleOf target = none ∧
        s.out.get? target.value = claims.get? target.value) := by
  obtain ⟨s₁, hrules, hs⟩ := exists_of_bind_ok h
  cases hs
  obtain ⟨hclaims, hresolved, hkept⟩ := rules_ok hrules
  have hfields := get?_writeFields mapping.metadataFields s₁ target.value
  rw [hclaims] at hfields
  cases hfield : mapping.fieldAt claims target.value with
  | some raw => exact .inl ⟨raw, rfl, by rw [hfields]; exact congrArg (Option.or · _) hfield⟩
  | none =>
    have hget : (mapping.metadataFields.foldl Applying.writeField s₁).out.get? target.value =
        s₁.out.get? target.value := by
      rw [hfields]
      exact (congrArg (Option.or · _) hfield).trans Option.none_or
    rw [hget]
    right
    cases hrule : mapping.ruleOf target with
    | none =>
      refine .inr ⟨rfl, rfl, hkept _ fun rule hmem heq => ?_⟩
      have hno := List.find?_eq_none.mp hrule rule (mem_reverse.mpr hmem)
      exact hno (decide_eq_true (CanonicalClaim.value_inj.mp heq))
    | some rule =>
      obtain ⟨htarget, after, before, hsplit, hafter⟩ := List.find?_eq_some_iff_append.mp hrule
      have htarget : rule.target = target := of_decide_eq_true htarget
      subst htarget
      have hrules' : mapping.rules = before.reverse ++ rule :: after.reverse := by
        rw [← reverse_reverse mapping.rules, hsplit]
        simp
      obtain ⟨value, hvalue⟩ := hresolved rule (by simp [hrules'])
      refine .inl ⟨rfl, rule, value, rfl, hvalue, ?_⟩
      rw [hrules'] at hrules
      refine rules_written hrules (fun other hother => ?_) hvalue
      simpa using hafter other (mem_reverse.mp hother)

theorem claimOr_mapped (target : CanonicalClaim) :
    ((claimOr s.out target).truthy = false ∧ mapping.mapped claims target = []) ∨
      (∃ values, List.Forall₂ Yields (mapping.mapped claims target) values ∧
        claimOr s.out target = .arr (values.flatMap Json.spread)) ∨
      ∃ source, mapping.mapped claims target = [source] ∧
        Yields source (claimOr s.out target) := by
  unfold mapped claimOr
  rcases get?_apply h target with ⟨raw, hfield, hget⟩ | ⟨hfield, rule, value, hrule, hvalue, hget⟩ |
    ⟨hfield, hrule, hget⟩
  · rw [hfield, hget]
    exact .inr (.inr ⟨_, rfl, .raw raw (.inl rfl) (.inr rfl)⟩)
  · rw [hfield, hget]
    dsimp only
    rw [hrule]
    rcases ClaimRule.resolve_used hvalue with ⟨hfalsy, hused⟩ | ⟨values, hused, rfl⟩ |
      ⟨raw, hused, hraw⟩
    · exact .inl ⟨hfalsy, by simp [hused]⟩
    · refine .inr (.inl ⟨values, ?_, rfl⟩)
      rw [forall₂_map_left_iff]
      have hall : List.Forall₂ (fun shape v => shape = .ok v)
          ((rule.used claims mapping.strict).map (rule.shaped mapping.strict)) values := by
        rw [hused, forall₂_map_left_iff]
        exact forall₂_same.mpr fun _ _ => rfl
      exact (forall₂_map_left_iff.mp hall).imp fun _ _ hraw => ClaimRule.shaped_yields hraw
    · refine .inr (.inr ⟨⟨rule.effectiveShape, rule.stripped, raw⟩, by simp [hused], ?_⟩)
      exact ClaimRule.shaped_yields hraw
  · rw [hfield, hget]
    dsimp only
    rw [hrule]
    cases hclaim : claims.get? target.value with
    | none => exact .inl ⟨rfl, rfl⟩
    | some raw => exact .inr (.inr ⟨_, rfl, .raw raw (.inl rfl) (.inr rfl)⟩)

/-- The texts of a mapped claim are strings of its sources, or made of objects. -/
theorem textsOf_claimOr {target : CanonicalClaim} {t : String}
    (htruthy : (claimOr s.out target).truthy = true) (ht : t ∈ (claimOr s.out target).textsOf) :
    t ∈ mapping.strings claims target ∨ t ∈ mapping.coerced claims target := by
  have hof : ∀ source ∈ mapping.mapped claims target, ∀ value, Yields source value →
      t ∈ value.textsOf →
        t ∈ mapping.strings claims target ∨ t ∈ mapping.coerced claims target := by
    intro source hsource value hyields ht
    rcases hyields.texts t ht with hstrings | hcoerced
    · exact .inl (mem_flatMap.mpr ⟨source, hsource, hstrings⟩)
    · exact .inr (mem_flatMap.mpr ⟨source, hsource, hcoerced⟩)
  rcases claimOr_mapped h target with ⟨hfalsy, -⟩ | ⟨values, hyields, heq⟩ |
    ⟨source, hmapped, hyields⟩
  · rw [hfalsy] at htruthy
    exact absurd htruthy (by decide)
  · rw [heq] at ht
    simp only [Json.textsOf, filterMap_flatMap, mem_flatMap] at ht
    obtain ⟨value, hvalue, ht⟩ := ht
    obtain ⟨source, hsource, hy⟩ := partner_of_mem hyields hvalue
    exact hof source hsource value hy (textsOf_spread ht)
  · exact hof source (by simp [hmapped]) _ hyields ht

/-- An object that is taken as a text is an element of the mapped claim. -/
theorem mem_of_coerced {target : CanonicalClaim} {t : String}
    (ht : t ∈ mapping.coerced claims target) :
    ∃ values, claimOr s.out target = .arr values ∧ Json.str t ∈ values := by
  obtain ⟨source, hsource, ht⟩ := mem_flatMap.mp ht
  rcases claimOr_mapped h target with ⟨-, hmapped⟩ | ⟨values, hyields, heq⟩ |
    ⟨source', hmapped, hyields⟩
  · rw [hmapped] at hsource
    exact absurd hsource not_mem_nil
  · refine ⟨_, heq, mem_flatMap.mpr ?_⟩
    obtain ⟨value, hvalue, hy⟩ := partner_of_mem hyields.flip hsource
    obtain ⟨items, rfl, hmem⟩ := hy.mem_of_coerced ht
    exact ⟨_, hvalue, hmem⟩
  · rw [hmapped, mem_singleton] at hsource
    subst hsource
    exact hyields.mem_of_coerced ht

/-- A text among the mapped claims is the one string of its target. -/
theorem strings_of_text {target : CanonicalClaim} {t : String}
    (ht : claimOr s.out target = .str t) (hne : t ≠ "") : mapping.strings claims target = [t] := by
  rcases claimOr_mapped h target with ⟨hfalsy, -⟩ | ⟨values, -, heq⟩ | ⟨source, hmapped, hyields⟩
  · rw [ht] at hfalsy
    simp [Json.truthy, hne] at hfalsy
  · rw [heq] at ht
    cases ht
  · rw [ht] at hyields
    rcases hyields.kind with ⟨values, heq⟩ | ⟨hshape, hprefix, hraw⟩
    · cases heq
    · simp [strings, hmapped, MappedSource.strings, hshape, hprefix, ← hraw,
        MappedSource.candidates, Json.textsOf, stripText]

end ClaimMapping

/-! ## Sets of whole texts -/

theorem Json.iterate_cases (value : Json) :
    (value.Iterable ∧ value.iterate = .ok value.elements) ∨
      (¬value.Iterable ∧ ∃ message, value.iterate = .error ⟨"TypeError", message⟩) := by
  cases value with
  | arr | str | obj => exact .inl ⟨trivial, rfl⟩
  | _ => exact .inr ⟨id, _, rfl⟩

theorem forM_hash_cases (values : List Json) :
    (∃ message, forM values Json.hash = .error ⟨"TypeError", message⟩) ∨
      forM values Json.hash = .ok () := by
  induction values with
  | nil => exact .inr rfl
  | cons value values ih =>
    rw [forM_cons]
    cases value with
    | arr | obj => exact .inl ⟨_, rfl⟩
    | _ => exact ih

/-- `frozenset(value)` fails with a `TypeError`, or has the elements of the value. -/
theorem frozensetOf_cases (value : Json) :
    (∃ message, frozensetOf value = .error ⟨"TypeError", message⟩) ∨
      (value.Iterable ∧ frozensetOf value = .ok value.elements) := by
  unfold frozensetOf
  rcases value.iterate_cases with ⟨hiterable, hiterate⟩ | ⟨-, message, hiterate⟩
  · rw [hiterate]
    rcases forM_hash_cases value.elements with ⟨message, hhash⟩ | hhash
    · exact .inl ⟨message, by simp [bind, Except.bind, forM_eq_forM, hhash]⟩
    · refine .inr ⟨hiterable, ?_⟩
      simp [bind, Except.bind, forM_eq_forM, hhash, pure, Except.pure]
  · exact .inl ⟨message, by simp [bind, Except.bind, hiterate]⟩

/-- The elements of a set of whole texts are texts of the value, which is not empty if there is one.
-/
theorem Json.IsTextSet.mem_elements {value role : Json} (h : value.IsTextSet)
    (hrole : role ∈ value.elements) :
    value.truthy = true ∧ ∃ s ∈ value.textsOf, role = .str s := by
  cases value with
  | arr values =>
    obtain ⟨s, rfl⟩ := h role hrole
    refine ⟨?_, s, mem_filterMap.mpr ⟨_, hrole, rfl⟩, rfl⟩
    cases values with
    | nil => exact absurd hrole not_mem_nil
    | cons => rfl
  | obj fields =>
    obtain ⟨field, hfield, rfl⟩ := mem_map.mp hrole
    refine ⟨?_, field.1, mem_map_of_mem hfield, rfl⟩
    cases fields with
    | nil => exact absurd hfield not_mem_nil
    | cons => rfl
  | str s =>
    obtain ⟨c, hc, rfl⟩ := mem_map.mp hrole
    obtain ⟨d, hd⟩ : ∃ d, s.toList = [d] := by
      refine length_eq_one_iff.mp (Nat.le_antisymm h ?_)
      exact length_pos_of_mem hc
    rw [hd, mem_singleton] at hc
    subst hc
    obtain rfl : s = String.singleton c := String.toList_inj.mp (by rw [hd]; simp)
    exact ⟨by simp [Json.truthy], _, mem_singleton.mpr rfl, rfl⟩
  | null | bool | int | float => exact absurd hrole not_mem_nil

theorem forM_hash_texts {values : List Json} (h : ∀ value ∈ values, ∃ s, value = .str s) :
    forM values Json.hash = .ok () := by
  induction values with
  | nil => rfl
  | cons value values ih =>
    obtain ⟨⟨s, rfl⟩, htail⟩ := forall_mem_cons.mp h
    rw [forM_cons]
    exact ih htail

theorem Json.IsTextSet.frozensetOf_eq {value : Json} (h : value.IsTextSet) :
    frozensetOf value = .ok value.elements := by
  have htexts : ∀ role ∈ value.elements, ∃ s, role = .str s := by
    intro role hrole
    obtain ⟨-, s, -, rfl⟩ := h.mem_elements hrole
    exact ⟨s, rfl⟩
  unfold frozensetOf
  rcases value.iterate_cases with ⟨-, hiterate⟩ | ⟨hiterable, -⟩
  · simp [hiterate, bind, Except.bind, forM_eq_forM, forM_hash_texts htexts, pure, Except.pure]
  · cases value with
    | arr | obj | str => exact absurd trivial hiterable
    | null | bool | int | float => exact h.elim

namespace ClaimMapping

variable {mapping : ClaimMapping} {claims : JsonObject} {s : Applying} {target : CanonicalClaim}

/-- A mapped claim gives a set of strings of its sources exactly if it serves. -/
theorem serves_iff (h : mapping.apply claims = .ok s) (target : CanonicalClaim) :
    (∃ roles, frozensetOf (claimOr s.out target) = .ok roles ∧
        ∀ role ∈ roles, ∃ t ∈ mapping.strings claims target, role = .str t) ↔
      mapping.Serves claims s.out target := by
  constructor
  · rintro ⟨roles, hroles, hstrings⟩
    obtain ⟨hiterable, rfl⟩ : (claimOr s.out target).Iterable ∧
        roles = (claimOr s.out target).elements := by
      rcases frozensetOf_cases (claimOr s.out target) with ⟨message, herror⟩ | ⟨hi, hok⟩
      · rw [herror] at hroles
        cases hroles
      · exact ⟨hi, Except.ok.inj (hroles.symm.trans hok)⟩
    refine ⟨?_, fun t ht => ?_⟩
    · cases hvalue : claimOr s.out target with
      | arr values =>
        rw [hvalue] at hstrings
        intro value hmem
        obtain ⟨t, -, rfl⟩ := hstrings value hmem
        exact ⟨t, rfl⟩
      | obj fields => trivial
      | str t =>
        change t.toList.length ≤ 1
        cases hchars : t.toList with
        | nil => simp
        | cons c cs =>
          -- The first character is the text itself, as that is the only string of the source.
          have hne : t ≠ "" := by
            rintro rfl
            cases hchars
          obtain ⟨t', ht', heq⟩ := hstrings (.str (String.singleton c)) (by
            rw [hvalue]
            exact mem_map.mpr ⟨c, by simp [hchars], rfl⟩)
          rw [strings_of_text h hvalue hne, mem_singleton] at ht'
          cases heq
          rw [← ht'] at hchars
          rw [← hchars]
          simp
      | null | bool b | int n | float x =>
        rw [hvalue] at hiterable
        exact hiterable.elim
    · obtain ⟨values, hvalue, hmem⟩ := mem_of_coerced h ht
      obtain ⟨t', ht', heq⟩ := hstrings (.str t) (by rw [hvalue]; exact hmem)
      cases heq
      exact ht'
  · rintro ⟨hset, hcoerced⟩
    refine ⟨_, hset.frozensetOf_eq, fun role hrole => ?_⟩
    obtain ⟨htruthy, t, ht, rfl⟩ := hset.mem_elements hrole
    rcases textsOf_claimOr h htruthy ht with ht | ht
    · exact ⟨t, ht, rfl⟩
    · exact ⟨t, hcoerced t ht, rfl⟩

/-! ## Errors -/

/-- Whatever is raised is a `ClaimTransformError`. -/
def Transforms {α : Type} (x : Except PyException α) : Prop :=
  ∀ e, x = .error e → e.typeName = "ClaimTransformError"

namespace Transforms

variable {α β : Type}

theorem ok (a : α) : Transforms (.ok a) := by
  rintro _ ⟨⟩

theorem raise (message : String) :
    Transforms (.error (claimTransformError message) : Except PyException α) := by
  rintro _ ⟨⟩
  rfl

theorem bind {x : Except PyException α} {f : α → Except PyException β} (hx : Transforms x)
    (hf : ∀ a, Transforms (f a)) : Transforms (x >>= f) := by
  intro e he
  cases x with
  | error e' =>
    cases he
    exact hx _ rfl
  | ok a => exact hf a e he

theorem map {x : Except PyException α} (hx : Transforms x) (f : α → β) : Transforms (x.map f) := by
  intro e he
  cases x with
  | error e' =>
    cases he
    exact hx _ rfl
  | ok a => cases he

theorem mapM {f : α → Except PyException β} (hf : ∀ a, Transforms (f a)) (l : List α) :
    Transforms (l.mapM f) := by
  induction l with
  | nil => exact ok []
  | cons a l ih =>
    rw [mapM_cons]
    exact (hf a).bind fun _ => ih.bind fun _ => ok _

end Transforms

theorem transforms_coerceScalar (value : Json) (strict : Bool) (target : String) :
    Transforms (coerceScalar value strict target) := by
  unfold coerceScalar
  split
  · exact .raise _
  · exact .ok _

theorem transforms_normalizeGrant (index : ℕ) (item : Json) :
    Transforms (normalizeGrant index item) := by
  unfold normalizeGrant
  cases item with
  | obj fields =>
    dsimp only
    split_ifs
    · exact .raise _
    · exact .raise _
    · exact .ok _
  | _ => exact .raise _

theorem transforms_normalize (value : Json) (shape : ValueShape) (p : Option String) (strict : Bool)
    (target : String) : Transforms (normalize value shape p strict target) := by
  have hsplit : ∀ cut, Transforms (splitString cut value strict target) := by
    intro cut
    unfold splitString
    cases value with
    | null | str | arr => exact .ok _
    | _ => exact transforms_coerceScalar _ _ _
  unfold normalize
  cases shape with
  | raw => exact .ok _
  | grants =>
    dsimp only
    unfold checkGrants
    cases value with
    | null => exact .ok _
    | arr items =>
      refine .bind (.mapM (fun item => transforms_normalizeGrant _ _) _) fun _ => .ok _
    | _ => exact .raise _
  | dictKeys =>
    refine .map ?_ _
    unfold dictKeys
    cases value with
    | null | obj => exact .ok _
    | _ =>
      dsimp only
      split
      · exact .raise _
      · exact .ok _
  | scalar => cases value <;> exact .ok _
  | space => exact .map (hsplit _) _
  | csv => exact .map (hsplit _) _
  | list =>
    refine .map ?_ _
    unfold asListPassthrough
    cases value with
    | null | arr => exact .ok _
    | _ => exact transforms_coerceScalar _ _ _
  | auto =>
    refine .map ?_ _
    unfold autoShape
    cases value with
    | null | arr | obj => exact .ok _
    | str s =>
      dsimp only
      split_ifs <;> exact .ok _
    | _ => exact transforms_coerceScalar _ _ _

/-- A rule fails with a `ClaimTransformError` only. -/
theorem transforms_resolve (rule : ClaimRule) (claims : JsonObject) (strict : Bool) :
    Transforms (rule.resolve claims strict) := by
  have hshaped : ∀ raw, Transforms (rule.shaped strict raw) := fun raw =>
    transforms_normalize raw _ _ _ _
  have hrequired : ∀ value : Json, Transforms (do rule.raiseIfRequired; return value) := by
    intro value
    refine .bind ?_ fun _ => .ok _
    unfold ClaimRule.raiseIfRequired
    split
    · exact .raise _
    · exact .ok _
  have hcollect : ∀ paths collected foundAny,
      Transforms (rule.collect claims strict paths collected foundAny) := by
    intro paths
    induction paths with
    | nil => exact fun _ _ => .ok _
    | cons path paths ih =>
      intro collected foundAny
      unfold ClaimRule.collect
      cases path.read claims with
      | none => exact ih collected foundAny
      | some raw =>
        dsimp only
        cases hvalue : rule.shaped strict raw with
        | error e =>
          rintro _ ⟨⟩
          exact hshaped raw e hvalue
        | ok value => exact ih _ _
  have hsearch : ∀ paths lastShaped, Transforms (rule.search claims strict paths lastShaped) := by
    intro paths
    induction paths with
    | nil => exact fun _ => .ok _
    | cons path paths ih =>
      intro lastShaped
      unfold ClaimRule.search
      cases path.read claims with
      | none => exact ih lastShaped
      | some raw =>
        dsimp only
        cases hvalue : rule.shaped strict raw with
        | error e =>
          rintro _ ⟨⟩
          exact hshaped raw e hvalue
        | ok value =>
          dsimp only
          split
          · exact .ok _
          · exact ih _
  unfold ClaimRule.resolve
  refine .bind (hshaped .null) fun emptyDefault => ?_
  split
  · refine .bind (hcollect _ _ _) fun found => ?_
    dsimp only
    split
    · exact hrequired emptyDefault
    · exact .ok _
  · refine .bind (hsearch _ _) fun found => ?_
    rcases found with value | _ | lastShaped
    · exact .ok _
    · exact hrequired emptyDefault
    · exact .ok _

theorem transforms_apply (mapping : ClaimMapping) (claims : JsonObject) :
    Transforms (mapping.apply claims) := by
  have hrules : ∀ (rules : List ClaimRule) s,
      Transforms (rules.foldlM (Applying.writeRule mapping.strict) s) := by
    intro rules
    induction rules with
    | nil => exact fun _ => .ok _
    | cons rule rules ih =>
      intro s
      rw [foldlM_cons]
      refine .bind ?_ fun _ => ih _
      exact .bind (transforms_resolve rule _ _) fun _ => .ok _
  exact .bind (hrules _ _) fun _ => .ok _

theorem transforms_normalizeGrants (value : Json) :
    Transforms (normalizeGrants value) := by
  unfold normalizeGrants
  cases value with
  | null => exact .ok _
  | arr items => exact .mapM (fun item => transforms_normalizeGrant _ _) _
  | _ => exact .raise _

/-! ## Reading -/

theorem mapM_error {α β : Type} {f : α → Except PyException β} {l : List α} {e : PyException}
    (h : l.mapM f = .error e) :
    ∃ before x after, l = before ++ x :: after ∧ (∀ y ∈ before, (f y).isOk) ∧ f x = .error e := by
  induction l with
  | nil => cases h
  | cons a l ih =>
    rw [mapM_cons] at h
    cases hfa : f a with
    | error e' =>
      rw [hfa] at h
      cases h
      exact ⟨[], a, l, rfl, by simp, hfa⟩
    | ok b =>
      rw [hfa] at h
      cases hl : l.mapM f with
      | error e' =>
        obtain ⟨before, x, after, rfl, hbefore, hx⟩ := ih (by simpa [hl, bind, Except.bind] using h)
        exact ⟨a :: before, x, after, rfl,
          forall_mem_cons.mpr ⟨by rw [hfa]; rfl, hbefore⟩, hx⟩
      | ok bs =>
        rw [hl] at h
        cases h

theorem mapM_error_of {α β : Type} {f : α → Except PyException β} {before after : List α} {x : α}
    {e : PyException} (hbefore : ∀ y ∈ before, (f y).isOk) (hx : f x = .error e) :
    (before ++ x :: after).mapM f = .error e := by
  induction before with
  | nil =>
    rw [nil_append, mapM_cons, hx]
    rfl
  | cons a before ih =>
    obtain ⟨ha, hbefore⟩ := forall_mem_cons.mp hbefore
    rw [cons_append, mapM_cons, ih hbefore]
    cases hfa : f a with
    | error e' =>
      rw [hfa] at ha
      exact absurd ha Bool.false_ne_true
    | ok b => rfl

theorem mapM_isOk {α β : Type} {f : α → Except PyException β} {l : List α}
    (h : ∀ x ∈ l, (f x).isOk) : ∃ bs, l.mapM f = .ok bs := by
  cases hl : l.mapM f with
  | ok bs => exact ⟨bs, rfl⟩
  | error e =>
    obtain ⟨before, x, after, rfl, -, hx⟩ := mapM_error hl
    have hok := h x (by simp)
    rw [hx] at hok
    exact absurd hok Bool.false_ne_true

theorem isOk_of_mapM {α β : Type} {f : α → Except PyException β} {l : List α} {bs : List β}
    (h : l.mapM f = .ok bs) : ∀ x ∈ l, (f x).isOk := by
  intro x hx
  cases hfx : f x with
  | ok b => rfl
  | error e =>
    exfalso
    induction l generalizing bs with
    | nil => exact not_mem_nil hx
    | cons a l ih =>
      rw [mapM_cons] at h
      obtain ⟨b, hb, h⟩ := exists_of_bind_ok h
      obtain ⟨bs', hbs, -⟩ := exists_of_bind_ok h
      rcases mem_cons.mp hx with rfl | hx
      · rw [hfx] at hb
        cases hb
      · exact ih hbs hx

/-- A grant fails for its actions: they are nothing to iterate over, or one is unknown. -/
theorem readGrant_cases (g : List (String × Json)) :
    (¬((g.lookup "actions").getD .null).Iterable ∧
        ∃ message, readGrant g = .error ⟨"TypeError", message⟩) ∨
      (((g.lookup "actions").getD .null).Iterable ∧ ∀ e, readGrant g = .error e →
        ∃ action, readAction action = .error e) := by
  rcases ((g.lookup "actions").getD .null).iterate_cases with ⟨hiterable, hiterate⟩ |
    ⟨hiterable, message, hiterate⟩
  · refine .inr ⟨hiterable, fun e he => ?_⟩
    unfold readGrant at he
    rw [hiterate] at he
    cases hactions : ((g.lookup "actions").getD .null).elements.mapM readAction with
    | error e' =>
      simp only [hactions, bind, Except.bind] at he
      cases he
      obtain ⟨before, action, after, -, -, haction⟩ := mapM_error hactions
      exact ⟨action, haction⟩
    | ok actions =>
      simp only [hactions, bind, Except.bind] at he
      cases he
  · refine .inl ⟨hiterable, message, ?_⟩
    unfold readGrant
    rw [hiterate]
    rfl

theorem typeName_of_readAction {action : Json} {e : PyException}
    (h : readAction action = .error e) : e.typeName = "ValueError" := by
  unfold readAction at h
  cases action with
  | str a =>
    dsimp only at h
    unfold Action.ofValue at h
    split_ifs at h
    cases h
    rfl
  | _ =>
    cases h
    rfl

/-- A `TypeError` is none of what may be raised. -/
theorem ReadsClaims.not_typeError (h : mapping.ReadsClaims claims) (message : String) :
    mapping.readContext claims ≠ .error ⟨"TypeError", message⟩ := by
  intro herror
  rcases h.raised _ herror with hname | ⟨action, haction⟩
  · exact absurd hname (by decide : "TypeError" ≠ "ClaimTransformError")
  · exact absurd (typeName_of_readAction haction) (by decide : "TypeError" ≠ "ValueError")

theorem ReadsClaims.of_error {e : PyException} (h : mapping.readContext claims = .error e)
    (he : e.typeName = "ClaimTransformError" ∨ ∃ action, readAction action = .error e) :
    mapping.ReadsClaims claims := by
  refine ⟨fun e' he' => ?_, fun ctx hctx => ?_, fun ctx hctx => ?_⟩
  · rw [h] at he'
    cases he'
    exact he
  all_goals
    rw [h] at hctx
    cases hctx

theorem ReadsClaims.of_ok {result : Option ForeignContext}
    (h : mapping.readContext claims = .ok result)
    (hroles : ∀ ctx ∈ result, ∀ role ∈ ctx.roles,
      ∃ t ∈ mapping.strings claims .roles, role = .str t)
    (hscopes : ∀ ctx ∈ result, ∀ scope ∈ ctx.scopes,
      ∃ t ∈ mapping.strings claims .scopes, scope = .str t) : mapping.ReadsClaims claims := by
  refine ⟨fun e he => ?_, fun ctx hctx => ?_, fun ctx hctx => ?_⟩
  · rw [h] at he
    cases he
  · rw [h] at hctx
    exact hroles ctx (Except.ok.inj hctx)
  · rw [h] at hctx
    exact hscopes ctx (Except.ok.inj hctx)

/-- What is left to do once the grants are normalized and there is something to build. -/
theorem readContext_eq {grants : List (List (String × Json))}
    (happly : mapping.apply claims = .ok s)
    (hgrants : normalizeGrants (claimOr s.out .grants) = .ok grants)
    (hblank : isBlank s.out grants = false) :
    ∃ build : List ResourceGrant → List Json → List Json → ForeignContext,
      (∀ gs roles scopes, (build gs roles scopes).roles = roles ∧
        (build gs roles scopes).scopes = scopes) ∧
      mapping.readContext claims = do
        let gs ← grants.mapM readGrant
        let roles ← frozensetOf (claimOr s.out .roles)
        let scopes ← frozensetOf (claimOr s.out .scopes)
        return some (build gs roles scopes) := by
  refine ⟨fun gs roles scopes => {
    userId := (s.out.get? "user_id").getD ((s.out.get? "sub").getD .null)
    roles
    scopes
    grants := gs
    metadata := (Dict.empty.setSome "tenant_id"
      ((s.out.get? "tenant_id").getD .null).notNone).setSome "actor"
      ((s.out.get? "actor").getD .null).notNone }, fun _ _ _ => ⟨rfl, rfl⟩, ?_⟩
  simp only [readContext, happly, buildContext, hgrants, hblank, bind, Except.bind]
  rfl

/-- **Foreign claims are read without a stray error and without roles or scopes made up** exactly if
they are readable: a grant's actions are something to iterate over, and roles and scopes are sets of
whole texts. -/
theorem reads_iff (mapping : ClaimMapping) (claims : JsonObject) :
    mapping.ReadsClaims claims ↔ mapping.Readable claims := by
  constructor
  · intro hreads s grants happly hgrants hblank
    obtain ⟨build, hbuild, hread⟩ := readContext_eq happly hgrants hblank
    refine ⟨fun before g after hsplit hbefore => ?_, fun hall => ?_⟩
    · by_contra hiterable
      rcases readGrant_cases g with ⟨-, message, hg⟩ | ⟨h, -⟩
      · apply hreads.not_typeError message
        rw [hread, hsplit, mapM_error_of hbefore hg]
        rfl
      · exact hiterable h
    · obtain ⟨gs, hgs⟩ := mapM_isOk hall
      rw [hgs] at hread
      rcases frozensetOf_cases (claimOr s.out .roles) with ⟨message, hroles⟩ | ⟨-, hroles⟩
      · refine absurd ?_ (hreads.not_typeError message)
        rw [hread, hroles]
        rfl
      rcases frozensetOf_cases (claimOr s.out .scopes) with ⟨message, hscopes⟩ |
        ⟨-, hscopes⟩
      · refine absurd ?_ (hreads.not_typeError message)
        rw [hread, hroles, hscopes]
        rfl
      have hctx : mapping.readContext claims = .ok (some (build gs
          (claimOr s.out .roles).elements
          (claimOr s.out .scopes).elements)) := by
        rw [hread, hroles, hscopes]
        rfl
      refine ⟨(serves_iff happly _).mp ⟨_, hroles, ?_⟩, (serves_iff happly _).mp ⟨_, hscopes, ?_⟩⟩
      · simpa only [(hbuild _ _ _).1] using hreads.roles _ hctx
      · simpa only [(hbuild _ _ _).2] using hreads.scopes _ hctx
  · intro hreadable
    cases happly : mapping.apply claims with
    | error e =>
      refine .of_error (e := e) ?_ (.inl (transforms_apply _ _ e happly))
      rw [readContext, happly]
      rfl
    | ok s =>
      have hbuild : mapping.readContext claims = buildContext s.out := by
        rw [readContext, happly]
        rfl
      cases hgrants : normalizeGrants (claimOr s.out .grants) with
      | error e =>
        refine .of_error (e := e) ?_ (.inl (transforms_normalizeGrants _ e hgrants))
        rw [hbuild, buildContext, hgrants]
        rfl
      | ok grants =>
        cases hblank : isBlank s.out grants with
        | true =>
          have hnone : mapping.readContext claims = .ok none := by
            simp only [hbuild, buildContext, hgrants, bind, Except.bind, hblank]
            rfl
          exact .of_ok hnone (by simp) (by simp)
        | false =>
          obtain ⟨hiterable, hserves⟩ := hreadable s grants happly hgrants hblank
          obtain ⟨build, hfields, hread⟩ := readContext_eq happly hgrants hblank
          cases hgs : grants.mapM readGrant with
          | error e =>
            rw [hgs] at hread
            refine .of_error hread (.inr ?_)
            obtain ⟨before, g, after, hsplit, hbefore, hg⟩ := mapM_error hgs
            rcases readGrant_cases g with ⟨hnot, -⟩ | ⟨-, haction⟩
            · exact absurd (hiterable before g after hsplit hbefore) hnot
            · exact haction e hg
          | ok gs =>
            obtain ⟨hroles, hscopes⟩ := hserves (isOk_of_mapM hgs)
            obtain ⟨roles, hr, hroles⟩ := (serves_iff happly _).mpr hroles
            obtain ⟨scopes, hs, hscopes⟩ := (serves_iff happly _).mpr hscopes
            rw [hgs, hr, hs] at hread
            refine .of_ok hread ?_ ?_
            · rintro ctx ⟨⟩
              rwa [(hfields gs roles scopes).1]
            · rintro ctx ⟨⟩
              rwa [(hfields gs roles scopes).2]

/-- A role that is one text comes out as its characters. -/
theorem letters_are_roles :
    ¬(ClaimMapping.mk [] [] false).ReadsClaims (Dict.empty.set "roles" (.str "admin")) := by
  intro hreads
  obtain ⟨t, ht, heq⟩ := hreads.roles _ rfl (.str "a") mem_cons_self
  have ht : t ∈ ["admin"] := ht
  rw [mem_singleton.mp ht] at heq
  exact absurd (Json.str.inj heq) (by decide)

end ClaimMapping

end Varco
