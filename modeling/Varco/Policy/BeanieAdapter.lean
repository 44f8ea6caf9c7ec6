import Mathlib.Data.List.Nodup
import Varco.Foundations.Run
import Varco.Foundations.Text

/-!
# The stored policy

`BeanieAdapter` of `varco_casbin.beanie_adapter`, under the calls of `CasbinPolicyEngine`: each rule
is a document with six fields, which is removed by a filter on the fields, and loaded from a line of
text. Of Casbin it is taken that it keeps a set of rules in memory, that it calls the adapter after
each change, and how it loads a line (`loadPolicyLine`).

A rule is read back from its document if none of its tokens has a comma in it, or white space at an
end. The filter also finds the rules that extend the removed one, so the rule that is removed must
not be stored after such a rule.
-/

namespace Varco

open List

namespace BeanieAdapter

/-! ## Rules and documents -/

/-- A rule in memory, with its policy type. -/
structure Rule where
  ptype : String
  tokens : List String
  deriving DecidableEq

structure CasbinRuleDocument where
  id : ℕ
  ptype : String
  v0 : String
  v1 : String
  v2 : String
  v3 : String
  v4 : String
  v5 : String
  deriving DecidableEq

/-- The fields `_V_FIELDS` of a document. -/
def CasbinRuleDocument.fields (doc : CasbinRuleDocument) : List String :=
  [doc.v0, doc.v1, doc.v2, doc.v3, doc.v4, doc.v5]

/-- `str(doc)`: up to the first empty field. -/
def CasbinRuleDocument.str (doc : CasbinRuleDocument) : String :=
  ", ".intercalate (doc.ptype :: doc.fields.takeWhile (· ≠ ""))

/-- `_rule_to_doc`, with `_rule_fields`. -/
def ruleToDoc (id : ℕ) (rule : Rule) : CasbinRuleDocument where
  id := id
  ptype := rule.ptype
  v0 := rule.tokens.getD 0 ""
  v1 := rule.tokens.getD 1 ""
  v2 := rule.tokens.getD 2 ""
  v3 := rule.tokens.getD 3 ""
  v4 := rule.tokens.getD 4 ""
  v5 := rule.tokens.getD 5 ""

/-- The documents that `_rule_filter` finds. -/
def ruleFilter (rule : Rule) (doc : CasbinRuleDocument) : Bool :=
  doc.ptype = rule.ptype && (rule.tokens.zip doc.fields).all fun x => x.2 = x.1

/-! ## Casbin -/

/-- `casbin.persist.load_policy_line`: the rule of a line. -/
def loadPolicyLine (line : String) : Option Rule :=
  if line = "" ∨ line.toList.head? = some '#' then none
  else
    match (pySplit ',' line).map pyStrip with
    | [] => none
    | ptype :: tokens => some ⟨ptype, tokens⟩

def insertRule (memory : List Rule) (rule : Rule) : List Rule :=
  if rule ∈ memory then memory else memory ++ [rule]

/-- `load_policy`, into an empty model. -/
def loadPolicy (docs : List CasbinRuleDocument) : List Rule :=
  (docs.filterMap fun doc => loadPolicyLine doc.str).foldl insertRule []

/-- `save_policy`: the documents instead of all others, the `_id`s from `nextId` on. -/
def savePolicy (memory : List Rule) (nextId : ℕ) : List CasbinRuleDocument :=
  memory.mapIdx fun i rule => ruleToDoc (nextId + i) rule

/-! ## The engine -/

/-- The policy in memory, the stored documents in the order of insertion, and each rule that was
removed with the documents that were deleted for it. -/
structure State where
  memory : List Rule := []
  docs : List CasbinRuleDocument := []
  nextId : ℕ := 0
  removals : List (Rule × List CasbinRuleDocument) := []

/-- The calls of the engine; `restart` is a `stop` and a `start`. -/
inductive Move
  | addPolicy (values : List String) (ptype : String)
  | removePolicy (values : List String) (ptype : String)
  | addRoleForUser (user role : String) (domain : Option String)
  | removeRoleForUser (user role : String) (domain : Option String)
  | reload
  | restart

def roleRule (user role : String) (domain : Option String) : Rule :=
  ⟨"g", user :: role :: domain.toList⟩

def Move.adds : Move → Option Rule
  | .addPolicy values ptype => some ⟨ptype, values⟩
  | .addRoleForUser user role domain => some (roleRule user role domain)
  | _ => none

def Move.removes : Move → Option Rule
  | .removePolicy values ptype => some ⟨ptype, values⟩
  | .removeRoleForUser user role domain => some (roleRule user role domain)
  | _ => none

def State.add (t : State) (rule : Rule) : State :=
  if rule ∈ t.memory then t
  else
    { t with
      memory := t.memory ++ [rule]
      docs := t.docs ++ [ruleToDoc t.nextId rule]
      nextId := t.nextId + 1 }

/-- The documents that `remove_policy` of the adapter deletes. -/
def deleted (docs : List CasbinRuleDocument) (rule : Rule) : List CasbinRuleDocument :=
  match docs.find? (ruleFilter rule) with
  | none => []
  | some doc => docs.filter fun d => d.id = doc.id

def State.remove (t : State) (rule : Rule) : State :=
  if rule ∈ t.memory then
    { t with
      memory := t.memory.filter (· ≠ rule)
      docs := t.docs.filter (· ∉ deleted t.docs rule)
      removals := t.removals ++ [(rule, deleted t.docs rule)] }
  else t

def State.load (t : State) : State := { t with memory := loadPolicy t.docs }

def State.act (t : State) : Move → State
  | .addPolicy values ptype => t.add ⟨ptype, values⟩
  | .removePolicy values ptype => t.remove ⟨ptype, values⟩
  | .addRoleForUser user role domain => t.add (roleRule user role domain)
  | .removeRoleForUser user role domain => t.remove (roleRule user role domain)
  | .reload => t.load
  | .restart => t.load

/-- A policy type is a letter and maybe a number, and a rule has one to six tokens that are not
empty. -/
structure Rule.Valid (rule : Rule) : Prop where
  ptype : rule.ptype ≠ "" ∧ ∀ c ∈ rule.ptype.toList, c.isAlphanum = true
  length : 1 ≤ rule.tokens.length ∧ rule.tokens.length ≤ 6
  tokens : ∀ v ∈ rule.tokens, v ≠ ""

/-- One call, about a valid rule. -/
structure Step (t : State) (a : Move) (t' : State) : Prop where
  adds : ∀ rule, a.adds = some rule → rule.Valid
  removes : ∀ rule, a.removes = some rule → rule.Valid
  act : t' = t.act a

/-! ## What is promised -/

/-- **The stored policy is the policy that is enforced.** -/
structure Faithful (t : State) : Prop where
  /-- After a reload, or a restart, the policy is the one in memory. -/
  reload : ∀ rule, rule ∈ loadPolicy t.docs ↔ rule ∈ t.memory
  /-- Each removal has deleted the document with exactly these tokens. -/
  removals : ∀ x ∈ t.removals, ∃ id, x.2 = [ruleToDoc id x.1]
  /-- A snapshot is read back. -/
  save : ∀ rule, rule ∈ loadPolicy (savePolicy t.memory t.nextId) ↔ rule ∈ t.memory

def Rule.Clean (rule : Rule) : Prop := ∀ v ∈ rule.tokens, ',' ∉ v.toList ∧ pyStrip v = v

def First (docs : List CasbinRuleDocument) (rule : Rule) : Prop :=
  ∀ past id rest, docs = past ++ ruleToDoc id rule :: rest → ∀ id' longer,
    ruleToDoc id' longer ∈ past → longer.ptype = rule.ptype → ¬rule.tokens <+: longer.tokens

/-- Clean rules are added, and rules are removed that are stored before those that extend them. -/
def Careful (_ : List Move) (t : State) (a : Move) : Prop :=
  (∀ rule, a.adds = some rule → rule.Clean) ∧ ∀ rule, a.removes = some rule → First t.docs rule

/-! ## Documents -/

variable {rule longer : Rule} {id id' : ℕ} {docs : List CasbinRuleDocument} {memory : List Rule}
  {t t' : State} {a : Move} {doc : CasbinRuleDocument}

theorem fields_ruleToDoc (h : rule.Valid) : (ruleToDoc id rule).fields =
    rule.tokens ++ List.replicate (6 - rule.tokens.length) "" := by
  obtain ⟨ptype, tokens⟩ := rule
  have hlength : tokens.length ≤ 6 := h.length.2
  match tokens, hlength with
  | [], _ | [_], _ | [_, _], _ | [_, _, _], _ | [_, _, _, _], _ | [_, _, _, _, _], _
  | [_, _, _, _, _, _], _ => rfl
  | _ :: _ :: _ :: _ :: _ :: _ :: _ :: _, hlength =>
    simp only [length_cons] at hlength
    omega

/-- The tokens are the fields before the first empty one. -/
theorem tokens_ruleToDoc (h : rule.Valid) :
    (ruleToDoc id rule).fields.takeWhile (· ≠ "") = rule.tokens := by
  have hfull : ∀ v ∈ rule.tokens, decide (v ≠ "") = true := fun v hv =>
    decide_eq_true (h.tokens v hv)
  rw [fields_ruleToDoc h, takeWhile_append_of_pos hfull]
  simp

theorem ruleToDoc_inj (h : rule.Valid) (h' : longer.Valid)
    (heq : ruleToDoc id rule = ruleToDoc id' longer) : id = id' ∧ rule = longer := by
  have hptype : rule.ptype = longer.ptype := congrArg CasbinRuleDocument.ptype heq
  have htokens := congrArg (fun doc => doc.fields.takeWhile (· ≠ "")) heq
  simp only [tokens_ruleToDoc h, tokens_ruleToDoc h'] at htokens
  obtain ⟨ptype, tokens⟩ := rule
  cases hptype
  cases htokens
  exact ⟨congrArg CasbinRuleDocument.id heq, rfl⟩

theorem all_zip_iff {l m : List String} (h : l.length ≤ m.length) :
    (l.zip m).all (fun x => x.2 = x.1) = true ↔ l <+: m := by
  induction l generalizing m with
  | nil => simp
  | cons v l ih =>
    cases m with
    | nil => simp at h
    | cons w m =>
      rw [zip_cons_cons, all_cons, Bool.and_eq_true, ih (by simpa using h),
        decide_eq_true_iff, cons_prefix_cons, eq_comm]

/-- **What the filter finds**: the rules that begin with these tokens. -/
theorem ruleFilter_ruleToDoc (h : rule.Valid) (h' : longer.Valid) :
    ruleFilter rule (ruleToDoc id longer) = true ↔
      longer.ptype = rule.ptype ∧ rule.tokens <+: longer.tokens := by
  have hlength : (longer.tokens ++ List.replicate (6 - longer.tokens.length) "").length = 6 := by
    rw [length_append, length_replicate]
    exact Nat.add_sub_cancel' h'.length.2
  have hzip := all_zip_iff (hlength ▸ h.length.2)
  unfold ruleFilter
  rw [Bool.and_eq_true, decide_eq_true_iff, fields_ruleToDoc h', hzip]
  refine and_congr Iff.rfl ⟨fun hbegins => ?_, fun hbegins => hbegins.trans (prefix_append ..)⟩
  rcases prefix_or_prefix_of_prefix hbegins (prefix_append ..) with hshort | hlong
  · exact hshort
  · -- what is left of the tokens would be empty ones
    obtain ⟨rest, hrest⟩ := hlong
    rw [← hrest, prefix_append_right_inj] at hbegins
    cases rest with
    | nil =>
      rw [append_nil] at hrest
      exact hrest ▸ prefix_rfl
    | cons v rest =>
      have hempty : v = "" := eq_of_mem_replicate (hbegins.subset mem_cons_self)
      exact absurd hempty (h.tokens v (hrest ▸ mem_append_right _ mem_cons_self))

/-! ## Lines -/

theorem pySplit_intercalate (part : String) (parts : List String)
    (h : ∀ x ∈ part :: parts, ',' ∉ x.toList) :
    pySplit ',' (", ".intercalate (part :: parts)) = part :: parts.map (" " ++ ·) := by
  have hnot : ∀ x : String, ',' ∉ x.toList → ∀ c ∈ x.toList, decide (c = ',') = false := by
    intro x hx c hc
    exact decide_eq_false fun heq => hx (heq ▸ hc)
  induction parts generalizing part with
  | nil =>
    rw [String.intercalate_singleton, pySplit,
      splitWhen_eq_singleton (hnot part (h part mem_cons_self))]
    simp
  | cons next parts ih =>
    have htail : ∀ x ∈ (" " ++ next) :: parts, ',' ∉ x.toList := by
      intro x hx
      rcases mem_cons.mp hx with rfl | hx
      · have hnext := h next (by simp)
        simpa using hnext
      · exact h x (by simp [hx])
    have hjoin : (", ".intercalate (part :: next :: parts)).toList =
        part.toList ++ ',' :: (", ".intercalate ((" " ++ next) :: parts)).toList := by
      rw [String.intercalate_cons_cons, String.intercalate_cons_append]
      simp
    have hrest := ih (" " ++ next) htail
    rw [pySplit] at hrest ⊢
    rw [hjoin, splitWhen_append (hnot part (h part mem_cons_self)) (by simp), map_cons,
      hrest]
    simp

theorem pyStrip_space (v : String) : pyStrip (" " ++ v) = pyStrip v := by
  have hspace : isUniSpace ' ' = true := by decide
  simp [pyStrip, hspace]

theorem not_space_of_alphanum {c : Char} (h : c.isAlphanum = true) : isUniSpace c = false := by
  have hrange : 48 ≤ c.toNat ∧ c.toNat ≤ 122 := by
    unfold Char.isAlphanum Char.isAlpha Char.isUpper Char.isLower Char.isDigit at h
    simp [UInt32.le_iff_toNat_le] at h
    have hval : c.val.toNat = c.toNat := rfl
    omega
  simp [isUniSpace, isPySpace]
  omega

theorem pyStrip_of_no_space {v : String} (h : ∀ c ∈ v.toList, isUniSpace c = false) :
    pyStrip v = v := by
  have hdrop : ∀ l : List Char, (∀ c ∈ l, isUniSpace c = false) → l.dropWhile isUniSpace = l := by
    intro l hl
    cases l with
    | nil => rfl
    | cons c l => exact dropWhile_cons_of_neg (by simp [hl c mem_cons_self])
  unfold pyStrip
  rw [hdrop _ h, hdrop _ fun c hc => h c (mem_reverse.mp hc), reverse_reverse,
    String.ofList_toList]

/-- **A clean rule is loaded from the line of its document.** -/
theorem loadPolicyLine_str (h : rule.Valid) (hclean : rule.Clean) :
    loadPolicyLine (ruleToDoc id rule).str = some rule := by
  have hcomma : ∀ x ∈ rule.ptype :: rule.tokens, ',' ∉ x.toList := by
    intro x hx
    rcases mem_cons.mp hx with rfl | hx
    · exact fun hc => absurd (h.ptype.2 _ hc) (by decide)
    · exact (hclean x hx).1
  have hptype : pyStrip rule.ptype = rule.ptype :=
    pyStrip_of_no_space fun c hc => not_space_of_alphanum (h.ptype.2 c hc)
  have htokens : rule.tokens.map (pyStrip ∘ (" " ++ ·)) = rule.tokens := by
    refine (map_congr_left fun v hv => ?_).trans (map_id' _)
    exact (pyStrip_space v).trans (hclean v hv).2
  have hstr : (ruleToDoc id rule).str = ", ".intercalate (rule.ptype :: rule.tokens) := by
    rw [CasbinRuleDocument.str, tokens_ruleToDoc h]
    rfl
  have hparts : (pySplit ',' (ruleToDoc id rule).str).map pyStrip = rule.ptype :: rule.tokens := by
    rw [hstr, pySplit_intercalate _ _ hcomma, map_cons, map_map, hptype, htokens]
  -- the line begins with the letter of the policy type
  have hline : ¬((ruleToDoc id rule).str = "" ∨
      (ruleToDoc id rule).str.toList.head? = some '#') := by
    obtain ⟨next, parts, hcons⟩ := exists_cons_of_length_pos h.length.1
    obtain ⟨c, cs, hhead⟩ := exists_cons_of_ne_nil (mt String.toList_eq_nil_iff.mp h.ptype.1)
    have hchars : (ruleToDoc id rule).str.toList =
        c :: (cs ++ (", " ++ ", ".intercalate (next :: parts)).toList) := by
      rw [hstr, hcons, String.intercalate_cons_cons, String.append_assoc, String.toList_append,
        hhead, cons_append]
    rw [← String.toList_eq_nil_iff, hchars, List.head?_cons, not_or]
    refine ⟨cons_ne_nil _ _, fun heq => ?_⟩
    have halnum := h.ptype.2 c (hhead ▸ mem_cons_self)
    rw [Option.some.inj heq] at halnum
    exact absurd halnum (by decide)
  unfold loadPolicyLine
  rw [if_neg hline, hparts]

theorem mem_foldl_insertRule {rules : List Rule} :
    rule ∈ rules.foldl insertRule memory ↔ rule ∈ memory ∨ rule ∈ rules := by
  induction rules generalizing memory with
  | nil => simp
  | cons r rules ih =>
    have hinsert : rule ∈ insertRule memory r ↔ rule ∈ memory ∨ rule = r := by
      unfold insertRule
      split_ifs with hr
      · exact ⟨Or.inl, fun hor => hor.elim (fun hm => hm) fun heq => heq ▸ hr⟩
      · rw [mem_append, mem_singleton]
    rw [foldl_cons, ih, hinsert, mem_cons, or_assoc]

theorem mem_loadPolicy :
    rule ∈ loadPolicy docs ↔ ∃ doc ∈ docs, loadPolicyLine doc.str = some rule := by
  unfold loadPolicy
  rw [mem_foldl_insertRule, mem_filterMap]
  exact or_iff_right not_mem_nil

/-- **The invariant**: the documents are those of the rules in memory, one for each. -/
structure Synced (t : State) : Prop where
  valid : ∀ rule ∈ t.memory, rule.Valid ∧ rule.Clean
  stored : ∀ rule ∈ t.memory, ∃ id, ruleToDoc id rule ∈ t.docs
  kept : ∀ doc ∈ t.docs, ∃ rule ∈ t.memory, doc = ruleToDoc doc.id rule
  ids : (t.docs.map (·.id)).Nodup
  fresh : ∀ doc ∈ t.docs, doc.id < t.nextId
  once : ∀ rule ∈ t.memory, ∀ id id', ruleToDoc id rule ∈ t.docs → ruleToDoc id' rule ∈ t.docs →
    id = id'
  removals : ∀ x ∈ t.removals, ∃ id, x.2 = [ruleToDoc id x.1]

theorem mem_load (hvalid : ∀ rule ∈ memory, rule.Valid ∧ rule.Clean)
    (hstored : ∀ rule ∈ memory, ∃ id, ruleToDoc id rule ∈ docs)
    (hkept : ∀ doc ∈ docs, ∃ id, ∃ rule ∈ memory, doc = ruleToDoc id rule) :
    rule ∈ loadPolicy docs ↔ rule ∈ memory := by
  rw [mem_loadPolicy]
  constructor
  · rintro ⟨doc, hdoc, hline⟩
    obtain ⟨id, rule', hrule, rfl⟩ := hkept doc hdoc
    rw [loadPolicyLine_str (hvalid rule' hrule).1 (hvalid rule' hrule).2] at hline
    exact Option.some.inj hline ▸ hrule
  · intro hrule
    obtain ⟨id, hdoc⟩ := hstored rule hrule
    exact ⟨_, hdoc, loadPolicyLine_str (hvalid rule hrule).1 (hvalid rule hrule).2⟩

theorem Synced.faithful (h : Synced t) : Faithful t where
  reload rule := mem_load h.valid h.stored fun doc hdoc => ⟨doc.id, h.kept doc hdoc⟩
  removals := h.removals
  save rule := by
    refine mem_load h.valid (fun r hr => ?_) fun doc hdoc => ?_
    · obtain ⟨i, hi, rfl⟩ := mem_iff_getElem.mp hr
      exact ⟨t.nextId + i, mem_mapIdx.mpr ⟨i, hi, rfl⟩⟩
    · obtain ⟨i, hi, rfl⟩ := mem_mapIdx.mp hdoc
      exact ⟨t.nextId + i, _, getElem_mem hi, rfl⟩

theorem Synced.add (h : Synced t) (hvalid : rule.Valid) (hclean : rule.Clean) :
    Synced (t.add rule) := by
  unfold State.add
  split_ifs with hmem
  · exact h
  · have hnew : ∀ {doc}, doc ∈ t.docs ++ [ruleToDoc t.nextId rule] →
        doc ∈ t.docs ∨ doc = ruleToDoc t.nextId rule := fun hdoc =>
      (mem_append.mp hdoc).imp_right mem_singleton.mp
    -- the documents of the other rules are not this one's
    have hother : ∀ id, ruleToDoc id rule ∉ t.docs := by
      intro id hdoc
      obtain ⟨rule', hrule', heq⟩ := h.kept _ hdoc
      obtain ⟨-, rfl⟩ := ruleToDoc_inj hvalid (h.valid rule' hrule').1 heq
      exact hmem hrule'
    constructor
    · intro r hr
      rcases mem_append.mp hr with hr | hr
      · exact h.valid r hr
      · rw [mem_singleton.mp hr]
        exact ⟨hvalid, hclean⟩
    · intro r hr
      rcases mem_append.mp hr with hr | hr
      · obtain ⟨id, hdoc⟩ := h.stored r hr
        exact ⟨id, mem_append_left _ hdoc⟩
      · rw [mem_singleton.mp hr]
        exact ⟨t.nextId, mem_append_right _ mem_cons_self⟩
    · intro doc hdoc
      rcases hnew hdoc with hdoc | rfl
      · obtain ⟨r, hr, heq⟩ := h.kept doc hdoc
        exact ⟨r, mem_append_left _ hr, heq⟩
      · exact ⟨rule, mem_append_right _ mem_cons_self, rfl⟩
    · change ((t.docs ++ [ruleToDoc t.nextId rule]).map (·.id)).Nodup
      rw [map_append]
      refine nodup_append.mpr ⟨h.ids, nodup_singleton _, ?_⟩
      intro i hi j hj heq
      obtain ⟨doc, hdoc, rfl⟩ := mem_map.mp hi
      have hj' : j = t.nextId := mem_singleton.mp hj
      exact absurd (heq.trans hj') (h.fresh doc hdoc).ne
    · intro doc hdoc
      rcases hnew hdoc with hdoc | rfl
      · exact (h.fresh doc hdoc).trans (Nat.lt_succ_self _)
      · exact Nat.lt_succ_self _
    · intro r hr id id' hid hid'
      rcases mem_append.mp hr with hold | hr
      · -- an older rule
        have hdoc : ∀ {i}, ruleToDoc i r ∈ t.docs ++ [ruleToDoc t.nextId rule] →
            ruleToDoc i r ∈ t.docs := by
          intro i hi
          refine (hnew hi).resolve_right fun heq => ?_
          obtain ⟨-, rfl⟩ := ruleToDoc_inj (h.valid r hold).1 hvalid heq
          exact hmem hold
        exact h.once r hold id id' (hdoc hid) (hdoc hid')
      · rw [mem_singleton.mp hr] at hid hid'
        have hself : ∀ {i}, ruleToDoc i rule ∈ t.docs ++ [ruleToDoc t.nextId rule] →
            i = t.nextId := fun hi =>
          (ruleToDoc_inj hvalid hvalid ((hnew hi).resolve_left (hother _))).1
        rw [hself hid, hself hid']
    · exact h.removals

/-- **What is deleted for a rule**: its document alone, if no rule that extends it comes first. -/
theorem Synced.deleted_eq (h : Synced t) (hrule : rule ∈ t.memory) (hfirst : First t.docs rule) :
    ∃ id, ruleToDoc id rule ∈ t.docs ∧ deleted t.docs rule = [ruleToDoc id rule] := by
  obtain ⟨hvalid, -⟩ := h.valid rule hrule
  obtain ⟨id, hdoc⟩ := h.stored rule hrule
  have hfinds : ruleFilter rule (ruleToDoc id rule) = true :=
    (ruleFilter_ruleToDoc hvalid hvalid).mpr ⟨rfl, prefix_refl _⟩
  obtain ⟨found, hfound⟩ := Option.isSome_iff_exists.mp (List.find?_isSome.mpr ⟨_, hdoc, hfinds⟩)
  obtain ⟨hmatch, past, rest, hdocs, hpast⟩ := List.find?_eq_some_iff_append.mp hfound
  have hmem : found ∈ t.docs := mem_of_find?_eq_some hfound
  obtain ⟨longer, hlonger, heq⟩ := h.kept found hmem
  rw [heq] at hmatch
  obtain ⟨hptype, hbegins⟩ := (ruleFilter_ruleToDoc hvalid (h.valid longer hlonger).1).mp hmatch
  -- the document of the rule is found, for it does not come after that of a longer one
  have hsame : found = ruleToDoc id rule := by
    rw [hdocs] at hdoc
    rcases mem_append.mp hdoc with hdoc | hdoc
    · have hnot := hpast _ hdoc
      rw [hfinds] at hnot
      cases hnot
    · rcases mem_cons.mp hdoc with hdoc | hdoc
      · exact hdoc.symm
      · obtain ⟨between, after, rfl⟩ := append_of_mem hdoc
        have hsplit : t.docs = (past ++ found :: between) ++ ruleToDoc id rule :: after := by
          rw [hdocs]
          simp
        refine absurd hbegins (hfirst _ _ _ hsplit found.id longer ?_ hptype)
        rw [← heq]
        simp
  refine ⟨id, hdoc, ?_⟩
  unfold deleted
  rw [hfound, hsame]
  change t.docs.filter (fun d => d.id = (ruleToDoc id rule).id) = _
  -- no other document has its `_id`
  have hids := h.ids
  rw [hdocs, hsame, map_append, map_cons] at hids
  obtain ⟨-, hids, hpast⟩ := nodup_append.mp hids
  have hnone : ∀ l : List CasbinRuleDocument, (∀ d ∈ l, d.id ≠ id) →
      l.filter (fun d => d.id = (ruleToDoc id rule).id) = [] := fun l hl =>
    filter_eq_nil_iff.mpr fun d hd => by simpa [ruleToDoc] using hl d hd
  have hpast' : ∀ d ∈ past, d.id ≠ id := fun d hd =>
    hpast d.id (mem_map_of_mem hd) id mem_cons_self
  have hrest' : ∀ d ∈ rest, d.id ≠ id := fun d hd heq =>
    (nodup_cons.mp hids).1 (mem_map.mpr ⟨d, hd, heq⟩)
  rw [hdocs, hsame, filter_append, filter_cons_of_pos (by simp), hnone past hpast',
    hnone rest hrest', nil_append]

theorem Synced.remove (h : Synced t) (hfirst : First t.docs rule) : Synced (t.remove rule) := by
  unfold State.remove
  split_ifs with hmem
  · obtain ⟨hvalid, -⟩ := h.valid rule hmem
    obtain ⟨id, hdoc, hdeleted⟩ := h.deleted_eq hmem hfirst
    have hmemory : ∀ {r}, r ∈ t.memory.filter (· ≠ rule) ↔ r ∈ t.memory ∧ r ≠ rule := by simp
    have hdocs : ∀ {d}, d ∈ t.docs.filter (· ∉ deleted t.docs rule) ↔
        d ∈ t.docs ∧ d ≠ ruleToDoc id rule := by simp [hdeleted]
    constructor
    · exact fun r hr => h.valid r (hmemory.mp hr).1
    · intro r hr
      obtain ⟨hr, hne⟩ := hmemory.mp hr
      obtain ⟨id', hdoc'⟩ := h.stored r hr
      refine ⟨id', hdocs.mpr ⟨hdoc', fun heq => hne ?_⟩⟩
      exact (ruleToDoc_inj (h.valid r hr).1 hvalid heq).2
    · intro doc hd
      obtain ⟨hold, hne⟩ := hdocs.mp hd
      obtain ⟨r, hr, heq⟩ := h.kept doc hold
      refine ⟨r, hmemory.mpr ⟨hr, fun hsame => hne ?_⟩, heq⟩
      rw [hsame] at heq
      have hid : doc.id = id := h.once rule hmem _ _ (heq ▸ hold) hdoc
      exact heq.trans (by rw [hid])
    · exact h.ids.sublist (filter_sublist.map _)
    · exact fun doc hd => h.fresh doc (hdocs.mp hd).1
    · exact fun r hr i i' hi hi' =>
        h.once r (hmemory.mp hr).1 i i' (hdocs.mp hi).1 (hdocs.mp hi').1
    · intro x hx
      rcases mem_append.mp hx with hx | hx
      · exact h.removals x hx
      · rw [mem_singleton.mp hx]
        exact ⟨id, hdeleted⟩
  · exact h

/-- A reload brings back the rules that were in memory. -/
theorem Synced.load (h : Synced t) : Synced t.load := by
  have hmemory : ∀ {r}, r ∈ loadPolicy t.docs ↔ r ∈ t.memory := fun {r} => h.faithful.reload r
  constructor
  · exact fun r hr => h.valid r (hmemory.mp hr)
  · exact fun r hr => h.stored r (hmemory.mp hr)
  · intro doc hdoc
    obtain ⟨r, hr, heq⟩ := h.kept doc hdoc
    exact ⟨r, hmemory.mpr hr, heq⟩
  · exact h.ids
  · exact h.fresh
  · exact fun r hr => h.once r (hmemory.mp hr)
  · exact h.removals

/-- **Every call keeps the policy in sync.** -/
theorem Synced.step {past : List Move} (h : Synced t) (hcareful : Careful past t a)
    (hstep : Step t a t') : Synced t' := by
  obtain ⟨hadds, hremoves, rfl⟩ := hstep
  cases a with
  | addPolicy values ptype => exact h.add (hadds _ rfl) (hcareful.1 _ rfl)
  | addRoleForUser user role domain => exact h.add (hadds _ rfl) (hcareful.1 _ rfl)
  | removePolicy values ptype => exact h.remove (hcareful.2 _ rfl)
  | removeRoleForUser user role domain => exact h.remove (hcareful.2 _ rfl)
  | reload | restart => exact h.load

/-- **The stored policy is the policy that is enforced**, in every run whose calls are careful. -/
theorem policy_stored {moves : List Move} (h : Guarded Step Careful {} moves t) : Faithful t := by
  have hstart : Synced {} :=
    ⟨fun _ h => absurd h not_mem_nil, fun _ h => absurd h not_mem_nil,
      fun _ h => absurd h not_mem_nil, nodup_nil, fun _ h => absurd h not_mem_nil,
      fun _ h => absurd h not_mem_nil, fun _ h => absurd h not_mem_nil⟩
  have hsynced : Synced t := h.invariant (I := fun _ t => Synced t) hstart
    fun _ _ _ _ _ hcareful hstep hsynced => hsynced.step hcareful hstep
  exact hsynced.faithful

/-! ## Two rules of one user -/

theorem valid_p {tokens : List String} (hlength : 1 ≤ tokens.length ∧ tokens.length ≤ 6)
    (htokens : ∀ v ∈ tokens, v ≠ "") : Rule.Valid ⟨"p", tokens⟩ where
  ptype := by
    refine ⟨show "p" ≠ "" by decide, fun c hc => ?_⟩
    have hp : "p".toList = ['p'] := by decide
    obtain rfl : c = 'p' := mem_singleton.mp (hp ▸ hc)
    decide
  length := hlength
  tokens := htokens

/-- What `alice` may do. -/
def data : List String := ["alice", "data1"]

def readData : List String := ["alice", "data1", "read"]

theorem step_add {values : List String} (h : Rule.Valid ⟨"p", values⟩) :
    Step t (.addPolicy values "p") (t.add ⟨"p", values⟩) :=
  ⟨fun _ heq => Option.some.inj heq ▸ h, (fun _ heq => nomatch heq), rfl⟩

theorem step_remove {values : List String} (h : Rule.Valid ⟨"p", values⟩) :
    Step t (.removePolicy values "p") (t.remove ⟨"p", values⟩) :=
  ⟨(fun _ heq => nomatch heq), fun _ heq => Option.some.inj heq ▸ h, rfl⟩

/-- The shorter rule is removed, which is stored first. -/
theorem policy_stored_alice : ∃ (moves : List Move) (t : State), Guarded Step Careful {} moves t ∧
    Faithful t ∧ t.memory = [⟨"p", readData⟩] ∧ t.removals.length = 1 := by
  have hdata : Rule.Valid ⟨"p", data⟩ := valid_p (by decide) (by decide)
  have hread : Rule.Valid ⟨"p", readData⟩ := valid_p (by decide) (by decide)
  have hguard : Guarded Step Careful {} ([] ++ [Move.addPolicy data "p"] ++
      [Move.addPolicy readData "p"] ++ [Move.removePolicy data "p"] ++ [Move.reload]) _ :=
    .snoc (.snoc (.snoc (.snoc .nil ?_ (step_add hdata)) ?_ (step_add hread)) ?_
      (step_remove hdata)) ⟨fun _ h => (nomatch h), fun _ h => nomatch h⟩
      ⟨fun _ h => (nomatch h), (fun _ h => nomatch h), rfl⟩
  · exact ⟨_, _, hguard, policy_stored hguard, by decide +kernel, by decide +kernel⟩
  · refine ⟨fun rule h => ?_, fun _ h => nomatch h⟩
    cases h
    unfold Rule.Clean
    decide +kernel
  · refine ⟨fun rule h => ?_, fun _ h => nomatch h⟩
    cases h
    unfold Rule.Clean
    decide +kernel
  · refine ⟨(fun _ h => nomatch h), fun rule h => ?_⟩
    cases h
    intro past id rest hdocs id' longer hlonger
    match past, hdocs, hlonger with
    | [], _, hlonger => cases hlonger
    | [_], hdocs, _ =>
      have hv2 := congrArg (fun docs => docs[1]?.map (·.v2)) hdocs
      exact absurd hv2 (by simp [State.add, ruleToDoc, data, readData])
    | _ :: _ :: _, hdocs, _ =>
      have hlength := congrArg List.length hdocs
      simp [State.add, data, readData] at hlength

/-- **A token with a comma is two tokens after a reload**, and the removal of a rule deletes the
document of a longer one that was stored first. -/
theorem policy_changed :
    (∃ t, Run Step {} [.addPolicy ["alice, bob", "data1"] "p"] t ∧
      t.memory = [⟨"p", ["alice, bob", "data1"]⟩] ∧
      loadPolicy t.docs = [⟨"p", ["alice", "bob", "data1"]⟩] ∧
      loadPolicy (savePolicy t.memory t.nextId) = [⟨"p", ["alice", "bob", "data1"]⟩]) ∧
    ∃ t, Run Step {} [.addPolicy readData "p", .addPolicy data "p", .removePolicy data "p"] t ∧
      t.removals = [(⟨"p", data⟩, [ruleToDoc 0 ⟨"p", readData⟩])] ∧
      t.memory = [⟨"p", readData⟩] ∧ loadPolicy t.docs = [⟨"p", data⟩] := by
  have hbob : Rule.Valid ⟨"p", ["alice, bob", "data1"]⟩ := valid_p (by decide) (by decide)
  have hdata : Rule.Valid ⟨"p", data⟩ := valid_p (by decide) (by decide)
  have hread : Rule.Valid ⟨"p", readData⟩ := valid_p (by decide) (by decide)
  refine ⟨⟨_, .single (step_add hbob), ?_, ?_, ?_⟩,
    ⟨_, .cons (step_add hread) (.cons (step_add hdata) (.single (step_remove hdata))), ?_, ?_, ?_⟩⟩
  all_goals decide +kernel

end BeanieAdapter

end Varco
