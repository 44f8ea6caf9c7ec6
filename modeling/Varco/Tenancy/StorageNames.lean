import Mathlib.Data.List.TakeWhile
import Mathlib.Tactic.FinCases
import Varco.Foundations.Text

/-!
# The storage of a tenant

The names of the schemas and databases of tenants, of `SASchemaRouter`, `SASchemaProvisioner`,
`SAEngineRegistry` and `SADatabaseProvisioner` in `varco_sa.tenancy`, and what PostgreSQL makes of
them: an identifier is cut after 63 bytes, one in double quotes keeps its case, and one in
`search_path` is folded to lower case, without the white space around it.

The check of a name is a regular expression that ends in `$`, which also matches before a line break
at the end. So the tenants are separate, each in the storage that was created for it, exactly if no
name ends in a line break, the names differ within 63 characters, and those are in lower case where
`search_path` is used (`separate_iff`).
-/

namespace Varco

open List

namespace TenantStorage

/-! ## Names -/

/-- A template that contains `{tenant_id}` once: what is before it, and after it. -/
structure Template where
  before : String
  after : String

/-- `template.format(tenant_id=tenant_id)` -/
def Template.format (t : Template) (tenantId : String) : String := t.before ++ tenantId ++ t.after

/-- `[A-Za-z_]` -/
def isIdentStart (c : Char) : Bool := c.isAlpha || c = '_'

/-- `[A-Za-z0-9_]` -/
def isIdentChar (c : Char) : Bool := c.isAlphanum || c = '_'

/-- `_VALID_IDENTIFIER.match(name)` -/
def isValidIdentifier (name : String) : Bool :=
  match name.toList with
  | [] => false
  | c :: cs =>
    -- `$` matches at the end, and before a line break at the end
    isIdentStart c && (cs.dropWhile isIdentChar = [] || cs.dropWhile isIdentChar = ['\n'])

/-- `SASchemaRouter.schema_name_for` -/
def schemaNameFor (schemaTemplate : Template) (tenantId : String) : Except PyException String :=
  let name := schemaTemplate.format tenantId
  if isValidIdentifier name then .ok name
  else
    .error (.valueError ("Schema name " ++ pyRepr name ++ " (rendered from tenant_id=" ++
      pyRepr tenantId ++
      ") is not a valid SQL identifier (must match ^[A-Za-z_][A-Za-z0-9_]*$). " ++
      "Schema names cannot be bound parameters, so this validation is the only injection " ++
      "defence — reject rather than quote-and-hope."))

/-- `SADatabaseProvisioner._db_name_for` -/
def dbNameFor (dbTemplate : Template) (tenantId : String) : Except PyException String :=
  let name := dbTemplate.format tenantId
  if isValidIdentifier name then .ok name
  else
    .error (.valueError ("Database name " ++ pyRepr name ++ " (rendered from tenant_id=" ++
      pyRepr tenantId ++ ") is not a valid SQL identifier — database names cannot be bound " ++
      "parameters, so this validation is the only injection defence."))

/-- `SAEngineRegistry._base_dsn` -/
def registryBase (baseDsn : String) : String :=
  String.ofList (baseDsn.toList.reverse.dropWhile (· = '/')).reverse ++ "/"

/-- `SAEngineRegistry._dsn_for`: the override of the tenant, if there is one. -/
def dsnFor (baseDsn : String) (dbTemplate : Template) (override : Option String)
    (tenantId : String) : String :=
  override.getD (registryBase baseDsn ++ dbTemplate.format tenantId)

/-! ## What the server makes of them -/

def truncated (l : List Char) : List Char := l.take 63

/-- The object that `"name"` stands for. -/
def quoted (name : String) : List Char := truncated name.toList

/-- The first schema of `search_path`. -/
def searchPathHead (value : String) : List Char :=
  truncated (((value.toList.dropWhile isPySpace).takeWhile isIdentChar).map Char.toLower)

/-- The database that a DSN names: what is after the last slash, up to the query. -/
def databaseOf (dsn : String) : List Char :=
  truncated ((dsn.toList.reverse.takeWhile (· ≠ '/')).reverse.takeWhile (· ≠ '?'))

/-- How a session gets to the storage of its tenant. -/
inductive Routing
  /-- `mechanism="translate_map"` -/
  | translateMap
  /-- `mechanism="search_path"` -/
  | searchPath
  /-- A database for each tenant, on this server. -/
  | database (baseDsn : String)

def Routing.nameFor : Routing → Template → String → Except PyException String
  | .translateMap, t, tenantId => schemaNameFor t tenantId
  | .searchPath, t, tenantId => schemaNameFor t tenantId
  | .database _, t, tenantId => dbNameFor t tenantId

/-- The schema, or the database, that a session of the tenant reads. -/
def Routing.session (r : Routing) (t : Template) (tenantId : String) : List Char :=
  match r with
  | .translateMap => quoted (t.format tenantId)
  | .searchPath => searchPathHead (t.format tenantId)
  | .database baseDsn => databaseOf (dsnFor baseDsn t none tenantId)

/-- The schema, or the database, that `provision` creates for the tenant. -/
def provisioned (t : Template) (tenantId : String) : List Char := quoted (t.format tenantId)

/-! ## Accepted names -/

variable {r : Routing} {t : Template} {a b name : String}

theorem nameFor_ok (h : r.nameFor t a = .ok name) :
    name = t.format a ∧ isValidIdentifier name = true := by
  have hschema : ∀ {n}, schemaNameFor t a = .ok n → n = t.format a ∧
      isValidIdentifier n = true := by
    intro n hn
    simp only [schemaNameFor] at hn
    split_ifs at hn with hvalid
    cases hn
    exact ⟨rfl, hvalid⟩
  cases r with
  | translateMap => exact hschema h
  | searchPath => exact hschema h
  | database baseDsn =>
    change dbNameFor t a = .ok name at h
    simp only [dbNameFor] at h
    split_ifs at h with hvalid
    cases h
    exact ⟨rfl, hvalid⟩

theorem schemaNameFor_ok (h : isValidIdentifier (t.format a) = true) :
    schemaNameFor t a = .ok (t.format a) := if_pos h

/-- **What is accepted**: a word, and maybe a line break after it. -/
theorem isValidIdentifier_iff : isValidIdentifier name = true ↔
    ∃ c cs, isIdentStart c = true ∧ (∀ d ∈ cs, isIdentChar d = true) ∧
      (name.toList = c :: cs ∨ name.toList = c :: cs ++ ['\n']) := by
  unfold isValidIdentifier
  constructor
  · intro h
    split at h
    · cases h
    · next c cs htoList =>
      rw [Bool.and_eq_true, Bool.or_eq_true, decide_eq_true_iff, decide_eq_true_iff] at h
      obtain ⟨hstart, hrest⟩ := h
      refine ⟨c, cs.takeWhile isIdentChar, hstart, fun d hd => ?_, ?_⟩
      · exact all_eq_true.mp all_takeWhile d hd
      · have hsplit : cs.takeWhile isIdentChar ++ cs.dropWhile isIdentChar = cs :=
          takeWhile_append_dropWhile
        rcases hrest with hnil | hbreak
        · rw [hnil, append_nil] at hsplit
          exact Or.inl (by rw [htoList, hsplit])
        · rw [hbreak] at hsplit
          exact Or.inr (by rw [htoList, cons_append, hsplit])
  · rintro ⟨c, cs, hstart, hword, htoList⟩
    have hdrop : ∀ l : List Char, (cs ++ l).dropWhile isIdentChar = l.dropWhile isIdentChar :=
      fun l => dropWhile_append_of_pos hword
    rcases htoList with htoList | htoList
    · have hnil := hdrop []
      rw [append_nil] at hnil
      rw [htoList]
      simp only [hstart, hnil, dropWhile_nil, decide_true, Bool.true_or, Bool.and_true]
    · rw [htoList]
      have hbreak : ['\n'].dropWhile isIdentChar = ['\n'] := by decide
      simp only [cons_append, hstart, hdrop, hbreak, decide_true, Bool.or_true, Bool.and_true]

def EndsInBreak (name : String) : Prop := name.toList.getLast? = some '\n'

theorem isIdentChar_of_start {c : Char} (h : isIdentStart c = true) : isIdentChar c = true := by
  unfold isIdentStart at h
  unfold isIdentChar Char.isAlphanum
  rw [Bool.or_eq_true] at h ⊢
  rw [Bool.or_eq_true]
  exact h.imp_left Or.inl

/-- An accepted name is a word, unless it ends in a line break. -/
theorem plain_iff (h : isValidIdentifier name = true) :
    (∀ c ∈ name.toList, isIdentChar c = true) ↔ ¬ EndsInBreak name := by
  unfold EndsInBreak
  obtain ⟨c, cs, hstart, hword, htoList | htoList⟩ := isValidIdentifier_iff.mp h
  · have hplain : ∀ d ∈ c :: cs, isIdentChar d = true := by
      intro d hd
      rcases mem_cons.mp hd with rfl | hd
      · exact isIdentChar_of_start hstart
      · exact hword d hd
    rw [htoList]
    refine iff_of_true hplain fun hlast => ?_
    have hbreak := hplain '\n' (mem_of_getLast? hlast)
    exact absurd hbreak (by decide)
  · rw [htoList]
    refine iff_of_false (fun hplain => ?_) (not_not.mpr (List.getLast?_concat ..))
    have hbreak := hplain '\n' (mem_append_right _ mem_cons_self)
    exact absurd hbreak (by decide)

/-! ## Sessions -/

theorem char_of_valid (h : isValidIdentifier name = true) {c : Char} (hc : c ∈ name.toList) :
    isIdentChar c = true ∨ c = '\n' := by
  obtain ⟨d, cs, hstart, hword, htoList | htoList⟩ := isValidIdentifier_iff.mp h
  · rw [htoList] at hc
    rcases mem_cons.mp hc with rfl | hc
    · exact Or.inl (isIdentChar_of_start hstart)
    · exact Or.inl (hword c hc)
  · rw [htoList, cons_append] at hc
    rcases mem_cons.mp hc with rfl | hc
    · exact Or.inl (isIdentChar_of_start hstart)
    · rcases mem_append.mp hc with hc | hc
      · exact Or.inl (hword c hc)
      · exact Or.inr (mem_singleton.mp hc)

/-- **A registry connects to the database of the accepted name.** -/
theorem databaseOf_dsnFor (h : isValidIdentifier (t.format a) = true) (baseDsn : String) :
    databaseOf (dsnFor baseDsn t none a) = provisioned t a := by
  have hne : ∀ d ∈ ['/', '?'], ∀ c ∈ (t.format a).toList, c ≠ d := by
    intro d hd c hc heq
    rcases char_of_valid h hc with hchar | hbreak
    · rw [heq] at hchar
      fin_cases hd <;> exact absurd hchar (by decide)
    · rw [heq] at hbreak
      fin_cases hd <;> exact absurd hbreak (by decide)
  have hslash : ∀ c ∈ (t.format a).toList.reverse, decide (c ≠ '/') = true := fun c hc =>
    decide_eq_true (hne '/' (by simp) c (mem_reverse.mp hc))
  have hquery : ∀ c ∈ (t.format a).toList, decide (c ≠ '?') = true := fun c hc =>
    decide_eq_true (hne '?' (by simp) c hc)
  have hdsn : (dsnFor baseDsn t none a).toList =
      (baseDsn.toList.reverse.dropWhile (· = '/')).reverse ++ '/' :: (t.format a).toList := by
    unfold dsnFor registryBase
    rw [Option.getD_none, String.toList_append, String.toList_append, String.toList_ofList,
      append_assoc]
    rfl
  have hstop : ∀ l : List Char, ('/' :: l).takeWhile (fun c => decide (c ≠ '/')) = [] :=
    fun l => by simp
  change truncated _ = truncated _
  rw [hdsn, reverse_append, reverse_cons, append_assoc, singleton_append,
    takeWhile_append_of_pos hslash, hstop, append_nil,
    reverse_reverse, takeWhile_eq_self_iff.mpr hquery]

/-- **A session with `search_path`** reads the schema of the name in lower case. -/
theorem searchPathHead_eq (h : isValidIdentifier name = true) (hplain : ¬ EndsInBreak name) :
    searchPathHead name = (quoted name).map Char.toLower := by
  have hall := (plain_iff h).mpr hplain
  have hspace : name.toList.dropWhile isPySpace = name.toList := by
    obtain ⟨c, cs, hstart, -, htoList⟩ := isValidIdentifier_iff.mp h
    have hc : isPySpace c = false := by
      by_contra hc
      rw [Bool.not_eq_false] at hc
      unfold isPySpace at hc
      rw [contains_iff_mem] at hc
      have hchar : c = Char.ofNat c.toNat := (Char.ofNat_toNat c).symm
      rw [hchar] at hstart
      generalize c.toNat = n at hc hstart
      fin_cases hc <;> exact absurd hstart (by decide)
    rcases htoList with htoList | htoList
    · rw [htoList, dropWhile_cons_of_neg (by rw [hc]; exact Bool.false_ne_true)]
    · rw [htoList, cons_append,
        dropWhile_cons_of_neg (by rw [hc]; exact Bool.false_ne_true)]
  unfold searchPathHead quoted truncated
  rw [hspace, takeWhile_eq_self_iff.mpr hall, map_take]

theorem toLower_eq_self_iff {c : Char} : c.toLower = c ↔ c.isUpper = false := by
  have hupper : c.isUpper = true ↔ c.val ≥ 'A'.val ∧ c.val ≤ 'Z'.val := by
    unfold Char.isUpper
    rw [decide_eq_true_iff]
  unfold Char.toLower
  split
  · next h =>
    refine iff_of_false (fun heq => ?_) (by rw [hupper.mpr h]; exact nofun)
    have hval : c.val + ('a'.val - 'A'.val) = c.val := congrArg Char.val heq
    exact absurd (UInt32.add_eq_left.mp hval) (by decide)
  · next h => exact iff_of_true rfl (by rw [← Bool.not_eq_true, hupper]; exact h)

theorem map_toLower_eq_self_iff {l : List Char} :
    l.map Char.toLower = l ↔ ∀ c ∈ l, c.isUpper = false := by
  induction l with
  | nil => simp
  | cons c l ih =>
    rw [map_cons, List.cons.injEq, ih, toLower_eq_self_iff, forall_mem_cons]

/-! ## Separate storage -/

/-- Two tenants have storage of their own. -/
structure Separate (r : Routing) (t : Template) (a b : String) : Prop where
  /-- Their sessions read different schemas, or databases. -/
  sessions : r.session t a ≠ r.session t b
  /-- Different ones were created for them. -/
  created : provisioned t a ≠ provisioned t b
  /-- Their names do not alter a statement. -/
  plain : ∀ name ∈ [t.format a, t.format b], ∀ c ∈ name.toList, isIdentChar c = true
  /-- Each session reads the one that was created for its tenant. -/
  own : ∀ tenantId ∈ [a, b], r.session t tenantId = provisioned t tenantId

/-- Two names that differ where PostgreSQL looks. -/
structure Differ (r : Routing) (t : Template) (a b : String) : Prop where
  noBreak : ∀ name ∈ [t.format a, t.format b], ¬ EndsInBreak name
  start : (t.format a).toList.take 63 ≠ (t.format b).toList.take 63
  lower : r = .searchPath → ∀ name ∈ [t.format a, t.format b], ∀ c ∈ name.toList.take 63,
    c.isUpper = false

theorem session_eq_iff (h : isValidIdentifier (t.format a) = true)
    (hplain : ¬ EndsInBreak (t.format a)) : r.session t a = provisioned t a ↔
      (r = .searchPath → ∀ c ∈ (t.format a).toList.take 63, c.isUpper = false) := by
  cases r with
  | translateMap => exact iff_of_true rfl fun h => nomatch h
  | database baseDsn => exact iff_of_true (databaseOf_dsnFor h baseDsn) fun h => nomatch h
  | searchPath =>
    change searchPathHead _ = quoted _ ↔ _
    rw [searchPathHead_eq h hplain]
    change (List.take 63 _).map Char.toLower = List.take 63 _ ↔ _
    generalize (t.format a).toList.take 63 = l
    rw [map_toLower_eq_self_iff]
    exact ⟨fun h _ => h, fun h => h rfl⟩

/-- **Tenants never share storage**, exactly if their names differ where PostgreSQL looks. -/
theorem separate_iff {nameA nameB : String} (ha : r.nameFor t a = .ok nameA)
    (hb : r.nameFor t b = .ok nameB) : Separate r t a b ↔ Differ r t a b := by
  obtain ⟨rfl, hvalidA⟩ := nameFor_ok ha
  obtain ⟨rfl, hvalidB⟩ := nameFor_ok hb
  constructor
  · intro h
    have hbreak : ∀ name ∈ [t.format a, t.format b], ¬ EndsInBreak name := by
      intro name hname
      rcases mem_pair.mp hname with rfl | rfl
      · exact (plain_iff hvalidA).mp (h.plain _ hname)
      · exact (plain_iff hvalidB).mp (h.plain _ hname)
    refine ⟨hbreak, h.created, fun hr name hname => ?_⟩
    rcases mem_pair.mp hname with rfl | rfl
    · exact (session_eq_iff hvalidA (hbreak _ hname)).mp (h.own a (by simp)) hr
    · exact (session_eq_iff hvalidB (hbreak _ hname)).mp (h.own b (by simp)) hr
  · intro h
    have hownA : r.session t a = provisioned t a :=
      (session_eq_iff hvalidA (h.noBreak _ (by simp))).mpr fun hr => h.lower hr _ (by simp)
    have hownB : r.session t b = provisioned t b :=
      (session_eq_iff hvalidB (h.noBreak _ (by simp))).mpr fun hr => h.lower hr _ (by simp)
    refine ⟨by rw [hownA, hownB]; exact h.start, h.start, fun name hname => ?_, fun id hid => ?_⟩
    · rcases mem_pair.mp hname with rfl | rfl
      · exact (plain_iff hvalidA).mpr (h.noBreak _ hname)
      · exact (plain_iff hvalidB).mpr (h.noBreak _ hname)
    · rcases mem_pair.mp hid with rfl | rfl
      · exact hownA
      · exact hownB

/-- `schema_template="t_{tenant_id}"` -/
def defaultTemplate : Template := ⟨"t_", ""⟩

/-- Two tenants with ordinary ids are separate. -/
theorem separate_iff_acme : Separate .searchPath defaultTemplate "acme" "globex" := by
  have ha : Routing.nameFor .searchPath defaultTemplate "acme" = .ok "t_acme" := by rfl
  have hb : Routing.nameFor .searchPath defaultTemplate "globex" = .ok "t_globex" := by rfl
  have hlower : ∀ l : List Char, l.all (fun c => !c.isUpper) = true → ∀ c ∈ l, c.isUpper = false :=
    fun l hl c hc => (Bool.not_eq_true' _).mp (all_eq_true.mp hl c hc)
  refine (separate_iff ha hb).mpr ⟨?_, ?_, fun _ name hname => ?_⟩
  · unfold EndsInBreak
    decide +kernel
  · decide +kernel
  · rcases mem_pair.mp hname with rfl | rfl
    · exact hlower _ (by decide +kernel)
    · exact hlower _ (by decide +kernel)

/-- **Accepted tenant ids that share storage**: two long ones in one schema, two that differ in case
in the one schema that a session with `search_path` reads; and a name that is not a word. -/
theorem storage_shared :
    (∃ a b name name', a ≠ b ∧ schemaNameFor defaultTemplate a = .ok name ∧
      schemaNameFor defaultTemplate b = .ok name' ∧
      provisioned defaultTemplate a = provisioned defaultTemplate b) ∧
    (∃ a b name name', a ≠ b ∧ schemaNameFor defaultTemplate a = .ok name ∧
      schemaNameFor defaultTemplate b = .ok name' ∧
      Routing.searchPath.session defaultTemplate a = Routing.searchPath.session defaultTemplate b) ∧
    ∃ a name, schemaNameFor defaultTemplate a = .ok name ∧
      ∃ c ∈ name.toList, isIdentChar c = false := by
  refine ⟨⟨String.ofList (List.replicate 61 'x'), String.ofList (List.replicate 62 'x'), _, _, ?_,
      schemaNameFor_ok ?_, schemaNameFor_ok ?_, ?_⟩,
    ⟨"Acme", "acme", _, _, by decide, schemaNameFor_ok ?_, schemaNameFor_ok ?_, ?_⟩,
    ⟨"acme\n", _, schemaNameFor_ok ?_, '\n', ?_, by decide⟩⟩
  all_goals decide +kernel

end TenantStorage

end Varco
