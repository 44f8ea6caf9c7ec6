import Varco.Query.FilterText
import Varco.Query.GrammarParser

/-!
# What a filter string means

A tree that is written, parsed and coerced comes back if and only if its strings need no escapes and
have one line, its integers and decimals are numbers of type `float`, and none of its lists is empty
(`Plain`). A string without parentheses is read as SQL reads it if and only if no `AND` is behind an
`OR`: the grammar gives the two connectives one precedence, and reads them from the left.
-/

namespace Varco

open List QueryParser

open FilterToken (keyword)

/-! ## The precedence of SQL -/

def disjoin : Option (FilterNode FilterScalar) → FilterNode FilterScalar → FilterNode FilterScalar
  | none, right => right
  | some left, right => .or left right

/-- What was read so far, and the conjunction that is being read, with the chain behind it. -/
def sqlChain (done : Option (FilterNode FilterScalar)) (current : FilterNode FilterScalar) :
    FilterChain → FilterNode FilterScalar
  | [] => disjoin done current
  | (.and, node) :: chain => sqlChain done (.and current node) chain
  | (.or, node) :: chain => sqlChain (some (disjoin done current)) node chain

/-- `AND` binds tighter than `OR`; both are read from the left. -/
def sqlTree (first : FilterNode FilterScalar) (chain : FilterChain) : FilterNode FilterScalar :=
  sqlChain none first chain

def sqlParse (s : String) : Option (FilterNode FilterScalar) := parseWith sqlTree s

def connectives (tokens : List FilterToken) : List Connective :=
  tokens.filterMap FilterToken.connective?

/-- No `AND` is behind an `OR`. -/
def AndsFirst (connectives : List Connective) : Prop :=
  connectives.Pairwise fun a b => a = .or → b = .or

/-! ## What comes back -/

namespace FilterLiteral

def type : FilterLiteral → FieldType
  | .str _ => .str
  | .int _ => .int
  | .float _ _ | .decimal _ _ => .float

/-- A string of one line without double quotes and backslashes, or a number of type `float`. -/
def Plain : FilterLiteral → Prop
  | .str s => ∀ c ∈ s.toList, c ≠ '\x22' ∧ c ≠ '\\' ∧ c ≠ '\n'
  | .int n => Binary64.nearest n = .finite n
  | .float _ _ => True
  | .decimal m scale => Binary64.nearest (scaled m scale) = .finite (scaled m scale)

def parsed : FilterLiteral → FilterScalar
  | .str s => .str (String.ofList (escaped s.toList))
  | .int n => .float (.nearest n)
  | .float m scale | .decimal m scale => .float (.nearest (scaled m scale))

end FilterLiteral

/-- `value` with the literals in Python. -/
def FilterValue.map {α β : Type} (f : α → β) : FilterValue α → FilterValue β
  | .none => .none
  | .scalar x => .scalar (f x)
  | .list xs => .list (xs.map f)

/-- What the transformer makes of a value; an empty list has one `None`. -/
def FilterValue.parsed : FilterValue FilterLiteral → FilterValue FilterScalar
  | .list [] => .list [.none]
  | value => value.map FilterLiteral.parsed

def FilterValue.Filled {α : Type} : FilterValue α → Prop
  | .list xs => xs ≠ []
  | _ => True

namespace FilterNode

def map {α β : Type} (f : FilterValue α → FilterValue β) : FilterNode α → FilterNode β
  | .comparison node => .comparison ⟨node.field, node.op, f node.value⟩
  | .and left right => .and (left.map f) (right.map f)
  | .or left right => .or (left.map f) (right.map f)
  | .not child => .not (child.map f)

def Forall {α : Type} (p : FilterComparison α → Prop) : FilterNode α → Prop
  | .comparison node => p node
  | .and left right | .or left right => left.Forall p ∧ right.Forall p
  | .not child => child.Forall p

def Typed (types : String → FieldType) (t : FilterNode FilterLiteral) : Prop :=
  t.Forall fun node => ∀ x ∈ node.value.all, x.type = types node.field

def Plain (t : FilterNode FilterLiteral) : Prop :=
  t.Forall fun node => node.value.Filled ∧ ∀ x ∈ node.value.all, x.Plain

def values (t : FilterNode FilterLiteral) : FilterNode FilterScalar :=
  t.map (·.map FilterLiteral.value)

def parsed (t : FilterNode FilterLiteral) : FilterNode FilterScalar := t.map (·.parsed)

end FilterNode

/-! ## Parsing what was written -/

theorem value?_token (x : FilterLiteral) : x.token.value? = some x.parsed := by
  cases x with
  | str s =>
    simp [FilterLiteral.token, FilterToken.value?, QueryTransformer.string, FilterLiteral.parsed]
  | int n =>
    simp only [FilterLiteral.token, FilterToken.value?, QueryTransformer.number, numberValue_int,
      FilterLiteral.parsed]
  | float m scale | decimal m scale =>
    simp only [FilterLiteral.token, FilterToken.value?, QueryTransformer.number,
      numberValue_decimal, FilterLiteral.parsed]

theorem filterValues_tokens (xs : List FilterLiteral) :
    FilterValues (valuesTokens xs) (xs.map FilterLiteral.parsed) := by
  induction xs with
  | nil => exact .nil
  | cons x xs ih => exact .cons (value?_token x) ih

theorem FilterComparison.factor {node : FilterComparison FilterLiteral} (h : node.WellFormed) :
    FilterFactor node.tokens (.comparison ⟨node.field, node.op, node.value.parsed⟩) := by
  obtain ⟨field, op, value⟩ := node
  obtain ⟨hname, hvalue⟩ := h
  have hfield : (FilterToken.name field.toList).name? = some field.toList := rfl
  have hback : QueryTransformer.field field.toList = field := String.ofList_toList
  unfold FilterComparison.tokens
  cases value with
  | none =>
    rcases hvalue with rfl | rfl
    · have hfactor := FilterFactor.isNull hfield
      rwa [hback] at hfactor
    · have hfactor := FilterFactor.isNotNull hfield
      rwa [hback] at hfactor
  | scalar x =>
    have hx := value?_token x
    have hop : ∃ text, op.token.op? = some text ∧
        Operation.ofValue (String.ofList text) = some op := by
      cases op with
      | equal | notEqual | greaterThan | lessThan | greaterEqual | lessEqual | like =>
        exact ⟨_, rfl, by decide⟩
      | in_ | isNull | isNotNull => cases hvalue
    obtain ⟨text, htext, hof⟩ := hop
    refine .comparison hfield htext hx ?_
    rw [QueryTransformer.comparison, hof, hback]
    rfl
  | list xs =>
    obtain rfl : op = .in_ := hvalue
    cases xs with
    | nil =>
      have hfactor := FilterFactor.inNone hfield
      rwa [hback] at hfactor
    | cons x xs =>
      have hfactor := FilterFactor.inList hfield (value?_token x) (filterValues_tokens xs)
      rwa [hback] at hfactor

variable {t : FilterNode FilterLiteral}

theorem FilterNode.term (h : t.WellFormed) :
    FilterTerm t.tokens t.parsed := by
  induction t with
  | comparison node => exact .factor (FilterComparison.factor h)
  | and left right ihl ihr => exact .group (.andExpr (.term (ihl h.1)) (ihr h.2))
  | or left right ihl ihr => exact .group (.orExpr (.term (ihl h.1)) (ihr h.2))
  | not child ih => exact .group (.term (.notExpr (ih h)))

/-- **What is written is parsed**, but for escapes, precision and empty lists, if each of its
strings has one line. -/
theorem parse_text (h : t.WellFormed) :
    parse t.text = if t.oneLine then some t.parsed else none := by
  have htokens := tokenize_text h
  by_cases hline : t.oneLine = true
  · rw [if_pos hline] at htokens ⊢
    exact parse_eq_some_iff.mpr ⟨t.tokens, htokens, .term (FilterNode.term h)⟩
  · rw [if_neg hline] at htokens ⊢
    rw [parse, parseWith, htokens]

/-! ## Coercing what was parsed -/

theorem escaped_eq_self_iff {cs : List Char} :
    escaped cs = cs ↔ ∀ c ∈ cs, c ≠ '\x22' ∧ c ≠ '\\' := by
  have hlength : ∀ cs : List Char, cs.length ≤ (escaped cs).length := by
    intro cs
    induction cs with
    | nil => exact le_rfl
    | cons c cs ih =>
      change _ ≤ ((if c = '\x22' ∨ c = '\\' then ['\\', c] else [c]) ++ escaped cs).length
      rw [length_append, length_cons]
      split_ifs <;> simp only [length_cons, length_nil] <;> omega
  induction cs with
  | nil => exact iff_of_true rfl fun _ h => absurd h not_mem_nil
  | cons c cs ih =>
    rw [forall_mem_cons]
    change (if c = '\x22' ∨ c = '\\' then ['\\', c] else [c]) ++ escaped cs = c :: cs ↔ _
    split_ifs with hc
    · refine iff_of_false (fun heq => ?_) fun hplain => ?_
      · have hlen := congrArg List.length heq
        have hle := hlength cs
        simp only [length_append, length_cons, length_nil] at hlen
        omega
      · exact hc.elim hplain.1.1 hplain.1.2
    · rw [singleton_append, cons_inj_right]
      exact ⟨fun heq => ⟨not_or.mp hc, ih.mp heq⟩, fun hplain => ih.mpr hplain.2⟩

def FieldType.coerce (type : FieldType) (x : FilterScalar) : Except CoercionError FilterScalar :=
  match type.coercer with
  | none => .ok x
  | some coercer => coercer x

theorem truncate_int (n : ℤ) : truncate n = n := by
  simp [truncate]

theorem coerce_parsed_iff {x : FilterLiteral} (h : x.oneLine = true) :
    x.type.coerce x.parsed = .ok x.value ↔ x.Plain := by
  cases x with
  | str s =>
    have hline : ∀ c ∈ s.toList, c ≠ '\n' := fun c hc => of_decide_eq_true (all_eq_true.mp h c hc)
    change (Except.ok (FilterScalar.str (String.ofList (escaped s.toList))) :
      Except CoercionError FilterScalar) = .ok (.str s) ↔ _
    rw [Except.ok.injEq, FilterScalar.str.injEq, ← String.toList_inj, String.toList_ofList,
      escaped_eq_self_iff]
    refine forall₂_congr fun c hc => ?_
    simp only [hline c hc, ne_eq, not_false_eq_true, and_true]
  | int n =>
    change coerceInt (.float (.nearest n)) = .ok (.int n) ↔ Binary64.nearest n = .finite n
    constructor
    · intro h
      cases hnearest : Binary64.nearest (n : ℚ) with
      | finite q =>
        rw [hnearest] at h
        obtain ⟨m, rfl⟩ := Binary64.nearest_int hnearest
        have hint : FilterScalar.int (truncate m) = .int n := Except.ok.inj h
        rw [truncate_int] at hint
        cases hint
        rfl
      | infinite negative =>
        rw [hnearest] at h
        cases h
      | nan =>
        rw [hnearest] at h
        cases h
    · intro h
      rw [h]
      change Except.ok (FilterScalar.int (truncate n)) = _
      rw [truncate_int]
  | float m scale => exact iff_of_true rfl trivial
  | decimal m scale =>
    change (Except.ok (FilterScalar.float (.nearest (FilterLiteral.scaled m scale))) :
      Except CoercionError FilterScalar) = .ok (.float (.finite (FilterLiteral.scaled m scale))) ↔ _
    rw [Except.ok.injEq, FilterScalar.float.injEq]
    rfl

theorem mapM_eq_ok_iff {ε α β γ : Type} {f : α → Except ε β} {g : γ → α} {k : γ → β} {xs : List γ} :
    (xs.map g).mapM f = .ok (xs.map k) ↔ ∀ x ∈ xs, f (g x) = .ok (k x) := by
  induction xs with
  | nil => exact iff_of_true rfl fun _ h => absurd h not_mem_nil
  | cons x xs ih =>
    rw [forall_mem_cons, ← ih, map_cons, map_cons, mapM_cons]
    cases hx : f (g x) with
    | error e => exact iff_of_false nofun fun h => nomatch h.1
    | ok b =>
      cases hxs : (xs.map g).mapM f with
      | error e => exact iff_of_false nofun fun h => nomatch h.2
      | ok bs =>
        change (Except.ok (b :: bs) : Except ε (List β)) = .ok (k x :: xs.map k) ↔ _
        rw [Except.ok.injEq, Except.ok.injEq, Except.ok.injEq, List.cons.injEq]

theorem visitComparison_eq (types : String → FieldType) (field : String) (op : Operation)
    (value : FilterValue FilterScalar) :
    ASTTypeCoercion.visitComparison types ⟨field, op, value⟩ = match value with
      | .none => .ok ⟨field, op, .none⟩
      | .scalar x => ((types field).coerce x).map fun x => ⟨field, op, .scalar x⟩
      | .list xs => (xs.mapM (types field).coerce).map fun xs => ⟨field, op, .list xs⟩ := by
  unfold ASTTypeCoercion.visitComparison
  cases htype : types field with
  | int | float =>
    cases value with
    | none => simp [FieldType.coercer]
    | scalar x =>
      simp only [FieldType.coercer]
      rfl
    | list xs =>
      simp only [FieldType.coercer]
      rfl
  | str =>
    simp only [FieldType.coercer]
    cases value with
    | none | scalar => rfl
    | list xs =>
      have hself : xs.mapM (FieldType.coerce .str) = .ok xs := by
        have hmap : (xs.map id).mapM (FieldType.coerce .str) = .ok (xs.map id) :=
          mapM_eq_ok_iff.mpr fun _ _ => rfl
        rwa [map_id] at hmap
      simp only [hself]
      rfl

/-- A comparison comes back if and only if its values do, and its list is not empty. -/
theorem visitComparison_parsed_iff {types : String → FieldType}
    {node : FilterComparison FilterLiteral}
    (h : ∀ x ∈ node.value.all, x.type = types node.field)
    (hline : node.value.all.all FilterLiteral.oneLine = true) :
    ASTTypeCoercion.visitComparison types ⟨node.field, node.op, node.value.parsed⟩ =
        .ok ⟨node.field, node.op, node.value.map FilterLiteral.value⟩ ↔
      node.value.Filled ∧ ∀ x ∈ node.value.all, x.Plain := by
  obtain ⟨field, op, value⟩ := node
  rw [visitComparison_eq]
  cases value with
  | none => exact iff_of_true rfl ⟨trivial, fun _ h => absurd h not_mem_nil⟩
  | scalar x =>
    have htype : x.type = types field := h x (mem_singleton_self x)
    have hx := coerce_parsed_iff (all_eq_true.mp hline x (mem_singleton_self x))
    rw [htype] at hx
    simp only [FilterValue.parsed, FilterValue.map, FilterValue.Filled, FilterValue.all,
      forall_mem_singleton, true_and, ← hx]
    cases (types field).coerce x.parsed with
    | error e => exact iff_of_false (fun h => by cases h) fun h => by cases h
    | ok y => simp [Except.map]
  | list xs =>
    cases xs with
    | nil =>
      refine iff_of_false (fun hback => ?_) fun hplain => hplain.1 rfl
      cases htype : types field <;> rw [htype] at hback <;> cases hback
    | cons x xs =>
      have hall : ((x :: xs).map FilterLiteral.parsed).mapM (types field).coerce =
          .ok ((x :: xs).map FilterLiteral.value) ↔
          ∀ y ∈ x :: xs, (types field).coerce y.parsed = .ok y.value := mapM_eq_ok_iff
      have hplain : (∀ y ∈ x :: xs, (types field).coerce y.parsed = .ok y.value) ↔
          ∀ y ∈ x :: xs, y.Plain := by
        refine forall₂_congr fun y hy => ?_
        rw [← coerce_parsed_iff (all_eq_true.mp hline y hy), h y hy]
      have hfilled : (FilterValue.list (x :: xs)).Filled := cons_ne_nil x xs
      simp only [FilterValue.parsed, FilterValue.map, FilterValue.all, hfilled, true_and,
        ← hplain, ← hall]
      cases ((x :: xs).map FilterLiteral.parsed).mapM (types field).coerce with
      | error e => exact iff_of_false (fun h => by cases h) fun h => by cases h
      | ok ys => simp [Except.map]

theorem both_eq_ok_iff {ε α β γ : Type} {x : Except ε α} {y : Except ε β} {f : α → β → γ} {a : α}
    {b : β} (hf : ∀ a' b', f a' b' = f a b ↔ a' = a ∧ b' = b) :
    (do
      let a ← x
      let b ← y
      return f a b) = .ok (f a b) ↔ x = .ok a ∧ y = .ok b := by
  cases x with
  | error e => exact iff_of_false nofun fun h => nomatch h.1
  | ok a' =>
    cases y with
    | error e => exact iff_of_false nofun fun h => nomatch h.2
    | ok b' =>
      change (Except.ok (f a' b') : Except ε γ) = .ok (f a b) ↔ _
      rw [Except.ok.injEq, Except.ok.injEq, Except.ok.injEq, hf]

theorem one_eq_ok_iff {ε α β : Type} {x : Except ε α} {f : α → β} {a : α}
    (hf : ∀ a', f a' = f a ↔ a' = a) :
    (do
      let a ← x
      return f a) = .ok (f a) ↔ x = .ok a := by
  cases x with
  | error e => exact iff_of_false nofun nofun
  | ok a' =>
    change (Except.ok (f a') : Except ε β) = .ok (f a) ↔ _
    rw [Except.ok.injEq, Except.ok.injEq, hf]

/-- **A tree comes back from the coercion** if and only if it is plain. -/
theorem visit_parsed_iff {types : String → FieldType} (h : t.Typed types)
    (hline : t.oneLine = true) :
    ASTTypeCoercion.visit types t.parsed = .ok t.values ↔ t.Plain := by
  induction t with
  | comparison node =>
    exact Iff.trans (one_eq_ok_iff fun _ => FilterNode.comparison.injEq _ _ ▸ Iff.rfl)
      (visitComparison_parsed_iff h hline)
  | and left right ihl ihr =>
    obtain ⟨hleft, hright⟩ := Bool.and_eq_true_iff.mp hline
    exact Iff.trans (both_eq_ok_iff fun _ _ => FilterNode.and.injEq _ _ _ _ ▸ Iff.rfl)
      (and_congr (ihl h.1 hleft) (ihr h.2 hright))
  | or left right ihl ihr =>
    obtain ⟨hleft, hright⟩ := Bool.and_eq_true_iff.mp hline
    exact Iff.trans (both_eq_ok_iff fun _ _ => FilterNode.or.injEq _ _ _ _ ▸ Iff.rfl)
      (and_congr (ihl h.1 hleft) (ihr h.2 hright))
  | not child ih =>
    exact Iff.trans (one_eq_ok_iff fun _ => ⟨FilterNode.not.inj, congrArg FilterNode.not⟩)
      (ih h hline)

theorem FilterLiteral.Plain.oneLine {x : FilterLiteral} (h : x.Plain) : x.oneLine = true := by
  cases x with
  | str s => exact all_eq_true.mpr fun c hc => decide_eq_true (h c hc).2.2
  | int | float | decimal => rfl

theorem FilterNode.Plain.oneLine (h : t.Plain) : t.oneLine = true := by
  induction t with
  | comparison node => exact all_eq_true.mpr fun x hx => (h.2 x hx).oneLine
  | and left right ihl ihr | or left right ihl ihr =>
    exact Bool.and_eq_true_iff.mpr ⟨ihl h.1, ihr h.2⟩
  | not child ih => exact ih h

/-- **A tree is read back** if and only if it is plain. -/
theorem read_back_iff {types : String → FieldType} (hwell : t.WellFormed) (htyped : t.Typed types) :
    (parse t.text).map (ASTTypeCoercion.visit types) = some (.ok t.values) ↔
      t.Plain := by
  rw [parse_text hwell]
  split_ifs with hline
  · rw [Option.map_some, Option.some.injEq]
    exact visit_parsed_iff htyped hline
  · exact iff_of_false nofun fun hplain => hline hplain.oneLine

/-! ## Reading as SQL -/

def FilterNode.hasOr {α : Type} : FilterNode α → Bool
  | .comparison _ => false
  | .and left right => left.hasOr || right.hasOr
  | .or _ _ => true
  | .not child => child.hasOr

def FilterNode.orUnderAnd {α : Type} : FilterNode α → Bool
  | .comparison _ => false
  | .and left right => left.hasOr || right.hasOr || left.orUnderAnd || right.orUnderAnd
  | .or left right => left.orUnderAnd || right.orUnderAnd
  | .not child => child.orUnderAnd

theorem FilterNode.orUnderAnd_of_hasOr {α : Type} {t : FilterNode α} (h : t.hasOr = false) :
    t.orUnderAnd = false := by
  induction t with
  | comparison => rfl
  | and left right ihl ihr =>
    obtain ⟨hl, hr⟩ := Bool.or_eq_false_iff.mp h
    simp only [orUnderAnd, hl, hr, ihl hl, ihr hr, Bool.or_self]
  | or => cases h
  | not child ih => exact ih h

variable {chain : FilterChain}

/-- In what SQL reads no disjunction is under a conjunction. -/
theorem orUnderAnd_sqlChain (h : ∀ link ∈ chain, link.2.hasOr = false)
    {current : FilterNode FilterScalar} (hcurrent : current.hasOr = false)
    {done : Option (FilterNode FilterScalar)} (hdone : ∀ t ∈ done, t.orUnderAnd = false) :
    (sqlChain done current chain).orUnderAnd = false := by
  have hdisjoin : (disjoin done current).orUnderAnd = false := by
    cases done with
    | none => exact FilterNode.orUnderAnd_of_hasOr hcurrent
    | some t =>
      simp only [disjoin, FilterNode.orUnderAnd, hdone t rfl,
        FilterNode.orUnderAnd_of_hasOr hcurrent, Bool.or_self]
  induction chain generalizing done current with
  | nil => exact hdisjoin
  | cons link chain ih =>
    obtain ⟨connective, node⟩ := link
    obtain ⟨hnode, hchain⟩ := forall_mem_cons.mp h
    have hnode' : node.hasOr = false := hnode
    cases connective with
    | and =>
      have hboth : (FilterNode.and current node).hasOr = false := by
        simp only [FilterNode.hasOr, hcurrent, hnode', Bool.or_self]
      refine ih hchain hboth hdone ?_
      cases done with
      | none => exact FilterNode.orUnderAnd_of_hasOr hboth
      | some t =>
        simp only [disjoin, FilterNode.orUnderAnd, hdone t rfl,
          FilterNode.orUnderAnd_of_hasOr hcurrent, FilterNode.orUnderAnd_of_hasOr hnode', hcurrent,
          hnode', Bool.or_self]
    | or =>
      have hsome : ∀ t ∈ some (disjoin done current), t.orUnderAnd = false := by
        rintro _ ⟨⟩
        exact hdisjoin
      refine ih hchain hnode' hsome ?_
      change ((disjoin done current).orUnderAnd || node.orUnderAnd) = false
      rw [hdisjoin, FilterNode.orUnderAnd_of_hasOr hnode']
      rfl

variable {first : FilterNode FilterScalar}

/-- What the grammar reads keeps a disjunction under a conjunction. -/
theorem orUnderAnd_leftTree
    (h : first.orUnderAnd = true) : (leftTree first chain).orUnderAnd = true := by
  induction chain generalizing first with
  | nil => exact h
  | cons link chain ih =>
    obtain ⟨connective, node⟩ := link
    refine ih ?_
    cases connective <;>
      simp [Connective.node, QueryTransformer.andExpr, QueryTransformer.orExpr,
        FilterNode.orUnderAnd, h]

theorem orUnderAnd_of_hasOr_first (hfirst : first.hasOr = true) (h : .and ∈ chain.map Prod.fst) :
    (leftTree first chain).orUnderAnd = true := by
  induction chain generalizing first with
  | nil => cases h
  | cons link chain ih =>
    obtain ⟨connective, node⟩ := link
    cases connective with
    | and =>
      have hunder : (FilterNode.and first node).orUnderAnd = true := by
        change (first.hasOr || node.hasOr || first.orUnderAnd || node.orUnderAnd) = true
        rw [hfirst, Bool.true_or, Bool.true_or, Bool.true_or]
      have htree : (leftTree (.and first node) chain).orUnderAnd = true :=
        orUnderAnd_leftTree hunder
      exact htree
    | or =>
      rw [map_cons, mem_cons] at h
      exact ih rfl (h.resolve_left nofun)

/-- Only disjunctions are left: both readings go on in the same way. -/
theorem sqlChain_eq_leftTree_of_ors (h : ∀ connective ∈ chain.map Prod.fst, connective = .or)
    {done : Option (FilterNode FilterScalar)} {current : FilterNode FilterScalar} :
    sqlChain done current chain = leftTree (disjoin done current) chain := by
  induction chain generalizing done current with
  | nil => rfl
  | cons link chain ih =>
    obtain ⟨connective, node⟩ := link
    rw [map_cons, forall_mem_cons] at h
    obtain ⟨hconnective, hrest⟩ := h
    cases hconnective
    exact ih hrest

/-- **Both readings agree** if and only if no `AND` is behind an `OR`. -/
theorem sqlTree_eq_leftTree_iff
    (hfirst : first.hasOr = false) (h : ∀ link ∈ chain, link.2.hasOr = false) :
    sqlTree first chain = leftTree first chain ↔ AndsFirst (chain.map Prod.fst) := by
  unfold sqlTree
  induction chain generalizing first with
  | nil => exact iff_of_true rfl List.Pairwise.nil
  | cons link chain ih =>
    obtain ⟨connective, node⟩ := link
    obtain ⟨hnode, hchain⟩ := forall_mem_cons.mp h
    have hnode' : node.hasOr = false := hnode
    unfold AndsFirst at ih ⊢
    rw [map_cons, pairwise_cons]
    cases connective with
    | and =>
      have hboth : (FilterNode.and first node).hasOr = false := by
        simp only [FilterNode.hasOr, hfirst, hnode', Bool.or_self]
      refine (ih hboth hchain).trans ⟨fun hrest => ⟨fun _ _ hor => (nomatch hor), hrest⟩, And.right⟩
    | or =>
      constructor
      · intro heq
        have hnone : Connective.and ∉ chain.map Prod.fst := by
          intro hand
          have hleft : (leftTree (.or first node) chain).orUnderAnd = true :=
            orUnderAnd_of_hasOr_first rfl hand
          have hsql := orUnderAnd_sqlChain hchain hnode'
            (fun t ht => Option.mem_some_iff.mp ht ▸ FilterNode.orUnderAnd_of_hasOr hfirst)
          have heq' : sqlChain (some first) node chain = leftTree (.or first node) chain := heq
          rw [heq', hleft] at hsql
          cases hsql
        have hors : ∀ connective ∈ chain.map Prod.fst, connective = .or := by
          intro connective hmem
          cases connective with
          | and => exact absurd hmem hnone
          | or => rfl
        refine ⟨fun connective hmem _ => hors connective hmem, ?_⟩
        exact pairwise_of_forall_mem_list fun _ _ b hb _ => hors b hb
      · rintro ⟨hors, -⟩
        exact sqlChain_eq_leftTree_of_ors fun connective hmem => hors connective hmem rfl

/-! ## Strings without parentheses -/

theorem connective?_of_name? {token : FilterToken} {text : List Char}
    (h : token.name? = some text) : token.connective? = none := by
  unfold FilterToken.connective?
  rw [if_neg (FilterToken.ne_keyword_of_name? h "AND"),
    if_neg (FilterToken.ne_keyword_of_name? h "OR")]

theorem connective?_of_op? {token : FilterToken} {text : List Char}
    (h : token.op? = some text) : token.connective? = none := by
  cases token with
  | op => rfl
  | word | name | string | number | lpar | rpar | comma => cases h

theorem connective?_of_value? {token : FilterToken} {x : FilterScalar}
    (h : token.value? = some x) : token.connective? = none := by
  cases token with
  | string | number => rfl
  | word | name | op | lpar | rpar | comma => cases h

theorem FilterFactor.flat {tokens : List FilterToken} {node : FilterNode FilterScalar}
    (h : FilterFactor tokens node) (hlpar : .lpar ∉ tokens) :
    node.hasOr = false ∧ ∀ token ∈ tokens, token.connective? = none := by
  cases h with
  | comparison hname hop hvalue hnode =>
    constructor
    · obtain ⟨op, -, rfl⟩ := Option.map_eq_some_iff.mp hnode
      rfl
    · simp only [forall_mem_cons, not_mem_nil, false_imp_iff, implies_true, and_true]
      exact ⟨connective?_of_name? hname, connective?_of_op? hop, connective?_of_value? hvalue⟩
  | isNull hname =>
    refine ⟨rfl, ?_⟩
    simp only [forall_mem_cons, not_mem_nil, false_imp_iff, implies_true, and_true]
    exact ⟨connective?_of_name? hname, by decide, by decide⟩
  | isNotNull hname =>
    refine ⟨rfl, ?_⟩
    simp only [forall_mem_cons, not_mem_nil, false_imp_iff, implies_true, and_true]
    exact ⟨connective?_of_name? hname, by decide, by decide, by decide⟩
  | inNone | inList => exact absurd (by simp) hlpar

theorem FilterTerm.flat : ∀ {tokens : List FilterToken} {node : FilterNode FilterScalar},
    FilterTerm tokens node → .lpar ∉ tokens →
      node.hasOr = false ∧ ∀ token ∈ tokens, token.connective? = none
  | _, _, .notExpr h, hlpar => by
    obtain ⟨hor, htokens⟩ := h.flat fun hmem => hlpar (mem_cons_of_mem _ hmem)
    refine ⟨hor, forall_mem_cons.mpr ⟨by decide, htokens⟩⟩
  | _, _, .group _, hlpar => absurd mem_cons_self hlpar
  | _, _, .factor h, hlpar => h.flat hlpar

theorem FilterLinks.flat {links : List FilterToken}
    (h : FilterLinks links chain) (hlpar : .lpar ∉ links) :
    connectives links = chain.map Prod.fst ∧ ∀ link ∈ chain, link.2.hasOr = false := by
  induction h with
  | nil => exact ⟨rfl, fun _ h => absurd h not_mem_nil⟩
  | @cons token connective tokens rest node chain htoken hterm _ ih =>
    simp only [mem_cons, mem_append, not_or] at hlpar
    obtain ⟨-, htokens, hrest⟩ := hlpar
    obtain ⟨hnode, hnone⟩ := hterm.flat htokens
    obtain ⟨hconnectives, hchain⟩ := ih hrest
    have hfilter : tokens.filterMap FilterToken.connective? = [] :=
      filterMap_eq_nil_iff.mpr hnone
    refine ⟨?_, forall_mem_cons.mpr ⟨hnode, hchain⟩⟩
    unfold connectives at hconnectives ⊢
    rw [filterMap_cons_some htoken, filterMap_append, hfilter, hconnectives]
    rfl

namespace QueryParser

/-- Without parentheses it does not matter how a chain in parentheses is read. -/
theorem parse_flat (read : Reading) (n : ℕ) :
    (∀ tokens, .lpar ∉ tokens → parseTerm read n tokens = parseTerm leftTree n tokens) ∧
    ∀ tokens, .lpar ∉ tokens → parseChain read n tokens = parseChain leftTree n tokens := by
  induction n with
  | zero => exact ⟨fun _ _ => rfl, fun _ _ => rfl⟩
  | succ n ih =>
    obtain ⟨ihterm, ihchain⟩ := ih
    refine ⟨fun tokens hlpar => ?_, fun tokens hlpar => ?_⟩
    · cases tokens with
      | nil => rfl
      | cons token tokens =>
        rw [mem_cons, not_or] at hlpar
        obtain ⟨htoken, htokens⟩ := hlpar
        rw [parseTerm, parseTerm, ihterm tokens htokens, if_neg (Ne.symm htoken),
          if_neg (Ne.symm htoken)]
    · cases tokens with
      | nil => rfl
      | cons token tokens =>
        rw [mem_cons, not_or] at hlpar
        obtain ⟨-, htokens⟩ := hlpar
        rw [parseChain, parseChain, ihterm tokens htokens]
        cases token.connective? with
        | none => rfl
        | some connective =>
          cases hnode : parseTerm leftTree n tokens with
          | none => rfl
          | some parsed =>
            obtain ⟨node, rest⟩ := parsed
            obtain ⟨pre, rfl, -⟩ := (parse_sound n).2.2 _ _ _ hnode
            have hrest : .lpar ∉ rest := fun hmem => htokens (mem_append_right _ hmem)
            simp only [ihchain rest hrest]

/-- The parts of a filter string without parentheses, and its tree for any reading. -/
theorem exists_chain {s : String} {tokens : List FilterToken} {node : FilterNode FilterScalar}
    (htokens : tokenize s = some tokens) (hlpar : .lpar ∉ tokens) (h : parse s = some node) :
    ∃ first chain, first.hasOr = false ∧ (∀ link ∈ chain, link.2.hasOr = false) ∧
      connectives tokens = chain.map Prod.fst ∧
      ∀ read : Reading, parseWith read s = some (read first chain) := by
  obtain ⟨_, htokens', hexpr⟩ := parse_eq_some_iff.mp h
  cases htokens.symm.trans htokens'
  obtain ⟨pre, links, first, chain, rfl, hfirst, hlinks, rfl⟩ := hexpr.exists_links
  rw [mem_append, not_or] at hlpar
  obtain ⟨hor, hnone⟩ := hfirst.flat hlpar.1
  obtain ⟨hconnectives, hchain⟩ := hlinks.flat hlpar.2
  refine ⟨first, chain, hor, hchain, ?_, fun read => ?_⟩
  · have hfilter : pre.filterMap FilterToken.connective? = [] :=
      filterMap_eq_nil_iff.mpr hnone
    unfold connectives at hconnectives ⊢
    rw [filterMap_append, hfilter, hconnectives]
    rfl
  · have hpos := length_pos_iff.mpr hfirst.ne_nil
    have hterm := (parse_complete (2 * (pre ++ links).length + 1)).2.2 pre first links hfirst
      (by rw [length_append]; omega)
    have hlist := (parse_complete (2 * (pre ++ links).length + 1)).2.1 links chain [] hlinks
      (by rw [length_append]; omega) fun _ h => nomatch h
    have hnolpar : .lpar ∉ pre ++ links := by
      rw [mem_append]
      exact not_or.mpr hlpar
    rw [append_nil] at hlist
    rw [← (parse_flat read _).1 _ hnolpar] at hterm
    rw [← (parse_flat read _).2 _ hlpar.2] at hlist
    unfold parseWith
    simp only [htokens, parseExpr, hterm, hlist]

end QueryParser

/-! ## What a filter string means -/

/-- **A filter string means what it says** where no escape, no line break, no rounding and no empty
list is in it, and no `AND` behind an `OR`. -/
theorem filter_string_means (types : String → FieldType) :
    (∀ t : FilterNode FilterLiteral, t.WellFormed → t.Typed types →
      ((parse t.text).map (ASTTypeCoercion.visit types) =
        some (.ok t.values) ↔ t.Plain)) ∧
    ∀ (s : String) (tokens : List FilterToken) (node : FilterNode FilterScalar),
      tokenize s = some tokens → .lpar ∉ tokens → parse s = some node →
        (sqlParse s = some node ↔ AndsFirst (connectives tokens)) := by
  refine ⟨fun t hwell htyped => read_back_iff hwell htyped, fun s tokens node htokens hlpar h => ?_⟩
  obtain ⟨first, chain, hfirst, hchain, hconnectives, hread⟩ :=
    exists_chain htokens hlpar h
  have hnode : node = leftTree first chain := Option.some.inj (h.symm.trans (hread leftTree))
  rw [sqlParse, hread sqlTree, hnode, Option.some.injEq, hconnectives]
  exact sqlTree_eq_leftTree_iff hfirst hchain

/-- Ages are integers, prices numbers of type `float`, and the rest texts. -/
def shopTypes (field : String) : FieldType :=
  if field = "age" then .int else if field = "price" then .float else .str

def shopFilter : FilterNode FilterLiteral :=
  .or (.not (.comparison ⟨"age", .in_, .list [.int 18, .int (-7)]⟩))
    (.comparison ⟨"name", .like, .scalar (.str "A%")⟩)

/-- The tokens of a comparison of a field with a number of one digit. -/
def digitTokens (field digit : Char) : List FilterToken :=
  [.name [field], .op ['='], .number [digit]]

theorem term_digitTokens {field digit : Char} :
    FilterTerm (digitTokens field digit)
      (.comparison ⟨String.ofList [field], .equal, .scalar (QueryTransformer.number [digit])⟩) :=
  .factor (.comparison rfl rfl rfl rfl)

/-- The filter comes back, and a text with its conjunction in front is read as SQL reads it. -/
theorem filter_string_means_shop :
    (parse shopFilter.text).map (ASTTypeCoercion.visit shopTypes) =
      some (.ok shopFilter.values) ∧
    ∃ node, parse "a = 1 AND b = 2 OR c = 3" = some node ∧
      sqlParse "a = 1 AND b = 2 OR c = 3" = some node := by
  have hwell : shopFilter.WellFormed :=
    ⟨⟨⟨by decide, by decide, by decide⟩, rfl⟩, ⟨⟨by decide, by decide, by decide⟩, rfl⟩⟩
  have htyped : shopFilter.Typed shopTypes := by
    refine ⟨fun x hx => ?_, fun x hx => ?_⟩ <;> fin_cases hx <;> rfl
  have hplain : shopFilter.Plain := by
    refine ⟨⟨cons_ne_nil _ _, fun x hx => ?_⟩, ⟨trivial, fun x hx => ?_⟩⟩
    · fin_cases hx <;> exact Binary64.nearest_of_natAbs_lt (by decide)
    · fin_cases hx
      intro c hc
      fin_cases hc <;> decide
  refine ⟨((filter_string_means shopTypes).1 shopFilter hwell htyped).mpr hplain, ?_⟩
  have htokens : tokenize "a = 1 AND b = 2 OR c = 3" = some (digitTokens 'a' '1' ++
      keyword "AND" :: digitTokens 'b' '2' ++ keyword "OR" :: digitTokens 'c' '3') := by decide
  have hnode := parse_eq_some_iff.mpr ⟨_, htokens, FilterExpr.orExpr (.andExpr (.term
    term_digitTokens) term_digitTokens) term_digitTokens⟩
  refine ⟨_, hnode, ((filter_string_means shopTypes).2 _ _ _ htokens ?_ hnode).mpr ?_⟩
  · decide
  · unfold AndsFirst
    decide

/-- An integer that is not of type `float`. -/
theorem not_plain_int : ¬ (FilterLiteral.int 9007199254740993).Plain := by
  intro h
  have hlog : Nat.log 2 9007199254740993 = 53 :=
    Nat.log_eq_of_pow_le_of_lt_pow (by norm_num) (by norm_num)
  have hplace : Binary64.place ((9007199254740993 : ℤ) : ℚ) = 1 := by
    have habs : |((9007199254740993 : ℤ) : ℚ)| = ((9007199254740993 : ℕ) : ℚ) := by norm_num
    rw [Binary64.place, habs, Int.log_natCast, hlog]
    norm_num
  change Binary64.nearest _ = _ at h
  unfold Binary64.nearest at h
  dsimp only at h
  split_ifs at h
  injection h with h
  rw [hplace, zpow_one] at h
  have hint : Binary64.significand ((9007199254740993 : ℤ) : ℚ) * 2 = 9007199254740993 := by
    exact_mod_cast h
  omega

/-- **A filter string does not mean what it says** if it has an escape, a line break, an empty list,
an integer that is not of type `float`, or an `AND` behind an `OR`. -/
theorem filter_string_distorted :
    (∃ node, parse "a = 1 OR b = 2 AND c = 3" = some node ∧
      sqlParse "a = 1 OR b = 2 AND c = 3" ≠ some node) ∧
    ∀ node ∈ [(⟨"name", .equal, .scalar (.str "a\\b")⟩ : FilterComparison FilterLiteral),
        ⟨"name", .equal, .scalar (.str "a\nb")⟩, ⟨"name", .in_, .list []⟩,
        ⟨"age", .equal, .scalar (.int 9007199254740993)⟩],
      (FilterNode.comparison node).WellFormed ∧ (FilterNode.comparison node).Typed shopTypes ∧
      (parse (FilterNode.comparison node).text).map (ASTTypeCoercion.visit shopTypes) ≠
        some (.ok (FilterNode.comparison node).values) := by
  constructor
  · have htokens : tokenize "a = 1 OR b = 2 AND c = 3" = some (digitTokens 'a' '1' ++
        keyword "OR" :: digitTokens 'b' '2' ++ keyword "AND" :: digitTokens 'c' '3') := by decide
    have hnode := parse_eq_some_iff.mpr ⟨_, htokens, FilterExpr.andExpr (.orExpr (.term
      term_digitTokens) term_digitTokens)
      term_digitTokens⟩
    refine ⟨_, hnode, fun hsql => ?_⟩
    obtain ⟨first, chain, hfirst, hchain, hconnectives, hread⟩ :=
      exists_chain htokens (by decide) hnode
    have hleft := hnode.symm.trans (hread leftTree)
    rw [hleft, sqlParse, hread sqlTree, Option.some.injEq, sqlTree_eq_leftTree_iff hfirst hchain,
      ← hconnectives] at hsql
    unfold AndsFirst at hsql
    exact absurd hsql (by decide)
  · have hdistorted : ∀ {node : FilterComparison FilterLiteral}, node.WellFormed →
        (FilterNode.comparison node).Typed shopTypes → ¬ (FilterNode.comparison node).Plain →
        (FilterNode.comparison node).WellFormed ∧ (FilterNode.comparison node).Typed shopTypes ∧
        (parse (FilterNode.comparison node).text).map
          (ASTTypeCoercion.visit shopTypes) ≠ some (.ok (FilterNode.comparison node).values) := by
      intro node hwell htyped hplain
      have hwell' : (FilterNode.comparison node).WellFormed := hwell
      exact ⟨hwell, htyped, fun hback => hplain ((read_back_iff hwell' htyped).mp hback)⟩
    have hname : IsFilterName "name" := ⟨by decide, by decide, by decide⟩
    have hage : IsFilterName "age" := ⟨by decide, by decide, by decide⟩
    intro node hnode
    simp only [mem_cons, not_mem_nil, or_false] at hnode
    rcases hnode with rfl | rfl | rfl | rfl
    · refine hdistorted ⟨hname, rfl⟩ (fun x hx => ?_) fun hplain => ?_
      · fin_cases hx
        rfl
      · have hmem : '\\' ∈ "a\\b".toList := by decide
        exact (hplain.2 _ (mem_singleton_self _) _ hmem).2.1 rfl
    · refine hdistorted ⟨hname, rfl⟩ (fun x hx => ?_) fun hplain => ?_
      · fin_cases hx
        rfl
      · have hmem : '\n' ∈ "a\nb".toList := by decide
        exact (hplain.2 _ (mem_singleton_self _) _ hmem).2.2 rfl
    · exact hdistorted ⟨hname, rfl⟩ (fun x hx => absurd hx not_mem_nil)
        fun hplain => hplain.1 rfl
    · refine hdistorted ⟨hage, rfl⟩ (fun x hx => ?_) fun hplain => ?_
      · fin_cases hx
        rfl
      · exact not_plain_int (hplain.2 _ (mem_singleton_self _))

end Varco
