import Varco.Query.Grammar

/-!
# The parser is the grammar

`parseExpr`, `parseChain` and `parseTerm` accept what the productions derive, with the same tree and
nothing left over (`parseExpr_sound`, `parseExpr_complete`). The rule `expr` is recursive on the
left, so a derivation of it is a first term with a chain of connectives and terms behind it
(`FilterLinks`), read from the left.
-/

namespace Varco

open List

open FilterToken (keyword)

variable {tokens rest : List FilterToken} {node : FilterNode FilterScalar} {n : ℕ}

/-! ## Factors -/

theorem FilterToken.ne_keyword_of_name? {token : FilterToken} {text : List Char}
    (h : token.name? = some text) (s : String) : token ≠ keyword s := by
  rintro rfl
  cases h

namespace FilterValues

theorem parse {values : List FilterScalar} (h : FilterValues tokens values)
    (rest : List FilterToken) :
    QueryParser.parseValues (tokens ++ rest) = some (values, rest) := by
  induction h with
  | nil => rfl
  | cons hvalue _ ih =>
    simp only [cons_append, QueryParser.parseValues, hvalue, ih]

theorem of_parse {values : List FilterScalar}
    (h : QueryParser.parseValues tokens = some (values, rest)) :
    ∃ pre, tokens = pre ++ rest ∧ FilterValues pre values := by
  fun_induction QueryParser.parseValues tokens generalizing values rest with
  | case1 rest' =>
    cases h
    exact ⟨[.rpar], rfl, .nil⟩
  | case2 token rest' value values' rest'' hrest hvalue ih =>
    cases h
    obtain ⟨pre, rfl, hpre⟩ := ih hrest
    exact ⟨.comma :: token :: pre, rfl, .cons hvalue hpre⟩
  | case3 | case4 => cases h

end FilterValues

namespace FilterFactor

theorem ne_nil (h : FilterFactor tokens node) : tokens ≠ [] := by
  cases h <;> exact cons_ne_nil _ _

theorem head (h : FilterFactor tokens node) :
    ∃ name text more, tokens = name :: more ∧ name.name? = some text := by
  cases h with
  | comparison hname | isNull hname | isNotNull hname | inNone hname | inList hname =>
    exact ⟨_, _, _, rfl, hname⟩

theorem parse (h : FilterFactor tokens node) (rest : List FilterToken) :
    QueryParser.parseFactor (tokens ++ rest) = some (node, rest) := by
  cases h with
  | comparison hname hop hvalue hnode =>
    simp only [cons_append, nil_append, QueryParser.parseFactor, hname, hop, hvalue,
      hnode, Option.map_some]
  | isNull hname | isNotNull hname | inNone hname =>
    simp only [cons_append, nil_append, QueryParser.parseFactor, hname]
    rfl
  | @inList name token field value tokens values hname hvalue hvalues =>
    have hrpar : token ≠ .rpar := by
      rintro rfl
      cases hvalue
    have hop : (keyword "IN").op? = none := by decide
    have his : keyword "IN" ≠ keyword "IS" := by decide
    simp only [cons_append, QueryParser.parseFactor, hname, hop, his, ↓reduceIte]
    cases token with
    | rpar => exact absurd rfl hrpar
    | string | number => simp only [hvalue, hvalues.parse rest]
    | word | name | op | lpar | comma => cases hvalue

theorem of_parse (h : QueryParser.parseFactor tokens = some (node, rest)) :
    ∃ pre, tokens = pre ++ rest ∧ FilterFactor pre node := by
  unfold QueryParser.parseFactor at h
  split at h
  case h_2 => cases h
  case h_1 name second more =>
  cases hname : name.name? with
  | none =>
    rw [hname] at h
    cases h
  | some text =>
    simp only [hname] at h
    split at h
    case h_1 op token rest' hop =>
      cases hvalue : token.value? with
      | none =>
        rw [hvalue] at h
        cases h
      | some value =>
        simp only [hvalue, Option.map_eq_some_iff, Prod.mk.injEq] at h
        obtain ⟨node', hnode, rfl, rfl⟩ := h
        exact ⟨[name, second, token], rfl, .comparison hname hop hvalue hnode⟩
    case h_2 => cases h
    case h_3 hop =>
      split_ifs at h with his hin
      · subst his
        split at h
        case h_2 => cases h
        case h_1 token rest' =>
        split_ifs at h with hnull
        · cases h
          subst hnull
          exact ⟨[name, keyword "IS", keyword "NULL"], rfl, .isNull hname⟩
        · split at h
          case h_2 => cases h
          case h_1 token' rest'' =>
          split_ifs at h with hnot
          cases h
          obtain ⟨rfl, rfl⟩ := hnot
          exact ⟨[name, keyword "IS", keyword "NOT", keyword "NULL"], rfl, .isNotNull hname⟩
      · subst hin
        split at h
        case h_1 rest' =>
          cases h
          exact ⟨[name, keyword "IN", .lpar, .rpar], rfl, .inNone hname⟩
        case h_2 token rest' _ =>
          split at h
          case h_2 => cases h
          case h_1 value values rest'' hvalue hrest =>
          cases h
          obtain ⟨pre, rfl, hvalues⟩ := FilterValues.of_parse hrest
          exact ⟨name :: keyword "IN" :: .lpar :: token :: pre, rfl,
            .inList hname hvalue hvalues⟩
        case h_3 => cases h

end FilterFactor

/-! ## Chains -/

/-- The connectives behind a term, with their terms. -/
inductive FilterLinks : List FilterToken → FilterChain → Prop
  | nil : FilterLinks [] []
  | cons {token : FilterToken} {connective : Connective} {tokens rest : List FilterToken}
      {node : FilterNode FilterScalar} {chain : FilterChain} :
      token.connective? = some connective → FilterTerm tokens node → FilterLinks rest chain →
      FilterLinks (token :: (tokens ++ rest)) ((connective, node) :: chain)

theorem FilterLinks.snoc {links : List FilterToken} {chain : FilterChain}
    (h : FilterLinks links chain) {token : FilterToken} {connective : Connective}
    (htoken : token.connective? = some connective) (hterm : FilterTerm tokens node) :
    FilterLinks (links ++ token :: tokens) (chain ++ [(connective, node)]) := by
  induction h with
  | nil =>
    have hlinks := FilterLinks.cons htoken hterm .nil
    rwa [append_nil] at hlinks
  | cons htoken' hterm' _ ih =>
    rw [cons_append, append_assoc]
    exact .cons htoken' hterm' ih

theorem FilterTerm.ne_nil (h : FilterTerm tokens node) : tokens ≠ [] := by
  cases h with
  | notExpr | group => exact cons_ne_nil _ _
  | factor hfactor => exact hfactor.ne_nil

/-- A derivation of `expr` is a chain. -/
theorem FilterExpr.exists_links : ∀ {tokens : List FilterToken} {node : FilterNode FilterScalar},
    FilterExpr tokens node → ∃ pre links first chain, tokens = pre ++ links ∧
      FilterTerm pre first ∧ FilterLinks links chain ∧ node = leftTree first chain
  | _, _, .term h => ⟨_, [], _, [], (append_nil _).symm, h, .nil, rfl⟩
  | _, _, .andExpr hl hr => by
    obtain ⟨pre, links, first, chain, rfl, hfirst, hlinks, rfl⟩ := hl.exists_links
    refine ⟨pre, _, first, _, append_assoc .., hfirst, hlinks.snoc rfl hr, ?_⟩
    simp only [leftTree, foldl_append]
    rfl
  | _, _, .orExpr hl hr => by
    obtain ⟨pre, links, first, chain, rfl, hfirst, hlinks, rfl⟩ := hl.exists_links
    refine ⟨pre, _, first, _, append_assoc .., hfirst, hlinks.snoc rfl hr, ?_⟩
    simp only [leftTree, foldl_append]
    rfl

/-- A chain is a derivation of `expr`. -/
theorem FilterExpr.of_links {links : List FilterToken} {chain : FilterChain}
    (h : FilterLinks links chain) {pre : List FilterToken} {first : FilterNode FilterScalar}
    (hfirst : FilterExpr pre first) : FilterExpr (pre ++ links) (leftTree first chain) := by
  induction h generalizing pre first with
  | nil => rwa [append_nil]
  | @cons token connective tokens rest node chain htoken hterm _ ih =>
    have hassoc : pre ++ token :: (tokens ++ rest) = (pre ++ token :: tokens) ++ rest := by simp
    rw [hassoc]
    refine ih ?_
    unfold FilterToken.connective? at htoken
    split_ifs at htoken with hand hor
    · cases htoken
      subst hand
      exact .andExpr hfirst hterm
    · cases htoken
      subst hor
      exact .orExpr hfirst hterm

/-! ## The parser -/

namespace QueryParser

/-- **What the parser accepts is derived.** -/
theorem parse_sound (n : ℕ) :
    (∀ tokens node rest, parseExpr leftTree n tokens = some (node, rest) →
      ∃ pre, tokens = pre ++ rest ∧ FilterExpr pre node) ∧
    (∀ tokens chain rest, parseChain leftTree n tokens = some (chain, rest) →
      ∃ pre, tokens = pre ++ rest ∧ FilterLinks pre chain) ∧
    ∀ tokens node rest, parseTerm leftTree n tokens = some (node, rest) →
      ∃ pre, tokens = pre ++ rest ∧ FilterTerm pre node := by
  induction n with
  | zero => exact ⟨nofun, nofun, nofun⟩
  | succ n ih =>
    obtain ⟨ihexpr, ihchain, ihterm⟩ := ih
    refine ⟨fun tokens node rest h => ?_, fun tokens chain rest h => ?_,
      fun tokens node rest h => ?_⟩
    · rw [parseExpr] at h
      split at h
      case h_1 => cases h
      case h_2 first rest₁ hfirst =>
      split at h
      case h_1 => cases h
      case h_2 chain rest₂ hchain =>
      cases h
      obtain ⟨pre, rfl, hterm⟩ := ihterm _ _ _ hfirst
      obtain ⟨links, rfl, hlinks⟩ := ihchain _ _ _ hchain
      exact ⟨pre ++ links, (append_assoc ..).symm, .of_links hlinks (.term hterm)⟩
    · cases tokens with
      | nil =>
        cases h
        exact ⟨[], rfl, .nil⟩
      | cons token tokens =>
        rw [parseChain] at h
        split at h
        case h_1 =>
          cases h
          exact ⟨[], rfl, .nil⟩
        case h_2 connective hconnective =>
        split at h
        case h_1 => cases h
        case h_2 node rest₁ hnode =>
        split at h
        case h_1 => cases h
        case h_2 chain rest₂ hchain =>
        cases h
        obtain ⟨pre, rfl, hterm⟩ := ihterm _ _ _ hnode
        obtain ⟨links, rfl, hlinks⟩ := ihchain _ _ _ hchain
        refine ⟨token :: (pre ++ links), ?_, .cons hconnective hterm hlinks⟩
        rw [cons_append, append_assoc]
    · cases tokens with
      | nil => cases h
      | cons token tokens =>
        rw [parseTerm] at h
        split_ifs at h with hnot hlpar
        · simp only [Option.map_eq_some_iff, Prod.mk.injEq] at h
          obtain ⟨⟨node', rest'⟩, hnode, rfl, rfl⟩ := h
          obtain ⟨pre, rfl, hterm⟩ := ihterm _ _ _ hnode
          subst hnot
          exact ⟨keyword "NOT" :: pre, rfl, .notExpr hterm⟩
        · split at h
          case h_2 => cases h
          case h_1 node' rest' hnode =>
          cases h
          obtain ⟨pre, rfl, hexpr⟩ := ihexpr _ _ _ hnode
          subst hlpar
          refine ⟨.lpar :: (pre ++ [.rpar]), ?_, .group hexpr⟩
          rw [cons_append, append_assoc]
          rfl
        · obtain ⟨pre, hpre, hfactor⟩ := FilterFactor.of_parse h
          exact ⟨pre, hpre, .factor hfactor⟩

/-- **What is derived is accepted**, with two levels of depth for each token. -/
theorem parse_complete (n : ℕ) :
    (∀ pre node rest, FilterExpr pre node → 2 * pre.length + 1 ≤ n →
      (∀ token ∈ rest.head?, token.connective? = none) →
      parseExpr leftTree n (pre ++ rest) = some (node, rest)) ∧
    (∀ pre chain rest, FilterLinks pre chain → 2 * pre.length + 1 ≤ n →
      (∀ token ∈ rest.head?, token.connective? = none) →
      parseChain leftTree n (pre ++ rest) = some (chain, rest)) ∧
    ∀ pre node rest, FilterTerm pre node → 2 * pre.length ≤ n →
      parseTerm leftTree n (pre ++ rest) = some (node, rest) := by
  induction n with
  | zero =>
    refine ⟨fun _ _ _ _ hlen => ?_, fun _ _ _ _ hlen => ?_, fun pre _ _ hterm hlen => ?_⟩
    · omega
    · omega
    · have hpos := length_pos_iff.mpr hterm.ne_nil
      omega
  | succ n ih =>
    obtain ⟨ihexpr, ihchain, ihterm⟩ := ih
    refine ⟨fun pre node rest h hlen hrest => ?_, fun pre chain rest h hlen hrest => ?_,
      fun pre node rest h hlen => ?_⟩
    · obtain ⟨p, links, first, chain, rfl, hfirst, hlinks, rfl⟩ := h.exists_links
      have hpos := length_pos_iff.mpr hfirst.ne_nil
      rw [length_append] at hlen
      have hterm := ihterm p first (links ++ rest) hfirst (by omega)
      have hchain := ihchain links chain rest hlinks (by omega) hrest
      rw [append_assoc, parseExpr]
      simp only [hterm, hchain]
    · cases h with
      | nil =>
        cases rest with
        | nil => rfl
        | cons token rest =>
          have hnone := hrest token (by simp)
          rw [nil_append, parseChain]
          simp only [hnone]
      | @cons token connective tokens links node chain htoken hterm hlinks =>
        rw [length_cons, length_append] at hlen
        have hnode := ihterm tokens node (links ++ rest) hterm (by omega)
        have hchain := ihchain links chain rest hlinks (by omega) hrest
        rw [cons_append, append_assoc, parseChain]
        simp only [htoken, hnode, hchain]
    · cases h with
      | @notExpr tokens node hterm =>
        rw [length_cons] at hlen
        rw [cons_append, parseTerm, if_pos rfl, ihterm tokens node rest hterm (by omega)]
        rfl
      | @group tokens node hexpr =>
        have hrpar : ∀ token ∈ (FilterToken.rpar :: rest).head?, token.connective? = none := by
          intro token htoken
          cases Option.mem_some_iff.mp htoken
          decide
        rw [length_cons, length_append, length_singleton] at hlen
        have hnode := ihexpr tokens node (.rpar :: rest) hexpr (by omega) hrpar
        rw [cons_append, append_assoc, parseTerm, if_neg (by decide), if_pos rfl]
        rw [singleton_append, hnode]
      | factor hfactor =>
        obtain ⟨name, text, more, rfl, hname⟩ := hfactor.head
        have hnot : name ≠ keyword "NOT" :=
          FilterToken.ne_keyword_of_name? hname "NOT"
        have hlpar : name ≠ .lpar := by
          rintro rfl
          cases hname
        rw [cons_append, parseTerm, if_neg hnot, if_neg hlpar]
        exact hfactor.parse rest

/-- **The grammar is unambiguous**: tokens have one tree at most. -/
theorem filterExpr_unambiguous (tokens : List FilterToken) :
    {node | FilterExpr tokens node}.Subsingleton := by
  have hparse : ∀ node, FilterExpr tokens node →
      parseExpr leftTree (2 * tokens.length + 1) (tokens ++ []) = some (node, []) :=
    fun node h => (parse_complete _).1 tokens node [] h le_rfl fun _ h => nomatch h
  intro node h node' h'
  exact congrArg Prod.fst (Option.some.inj ((hparse node h).symm.trans (hparse node' h')))

/-- **The parser accepts the language of the grammar**, and each of its texts has one tree. -/
theorem parse_eq_some_iff {s : String} :
    parse s = some node ↔ ∃ tokens, tokenize s = some tokens ∧ FilterExpr tokens node := by
  unfold parse parseWith
  cases htokens : tokenize s with
  | none => exact iff_of_false nofun fun ⟨_, h, _⟩ => nomatch h
  | some tokens =>
    constructor
    · intro h
      dsimp only at h
      split at h
      case h_2 => cases h
      case h_1 node' hnode =>
      cases h
      obtain ⟨pre, rfl, hexpr⟩ := (parse_sound _).1 _ _ _ hnode
      refine ⟨_, rfl, ?_⟩
      rwa [append_nil]
    · rintro ⟨_, ⟨⟩, hexpr⟩
      have hnode := (parse_complete (2 * tokens.length + 2)).1 tokens node [] hexpr (by omega)
        fun _ h => nomatch h
      rw [append_nil] at hnode
      simp only [hnode]

end QueryParser

end Varco
