import Varco.Query.MongoCompiler
import Mathlib.Computability.Language
import Mathlib.Data.List.TakeWhile

/-!
# LIKE on MongoDB

`BeanieQueryCompiler` turns a `LIKE` pattern into a regular expression. `searchRegex` is MongoDB's
search with it: anywhere in the text, with a dot for any character that is not a line break, on the
expressions that `_sql_like_to_regex` writes. `likeLanguage` is what SQL says a pattern matches, the
whole text.

`searchRegex_sqlLikeToRegex` says what the search finds: a part that the pattern matches, its
wildcards within lines. `like_on_mongo` says when that is what SQL asks for.
-/

namespace Varco

open List Computability

/-! ## Regular expressions -/

/-- What stands for one character. -/
inductive RegexAtom
  | any
  | literal (c : Char)
  deriving DecidableEq

def RegexAtom.accepts : RegexAtom → Char → Bool
  | .any, c => c ≠ '\n'
  | .literal d, c => c = d

/-- An atom, or a star after one. -/
inductive RegexToken
  | atom (a : RegexAtom)
  | star
  deriving DecidableEq

/-- The tokens of an expression without groups, classes, anchors and other quantifiers. A backslash
takes its meaning from a character that is no letter or digit. -/
def regexTokens : List Char → Option (List RegexToken)
  | [] => some []
  | '\\' :: c :: cs => if c.isAlphanum then none else (regexTokens cs).map (.atom (.literal c) :: ·)
  | '.' :: cs => (regexTokens cs).map (.atom .any :: ·)
  | '*' :: cs => (regexTokens cs).map (.star :: ·)
  | c :: cs =>
    if "\\^$[]()|?+\x7b\x7d".toList.contains c then none
    else (regexTokens cs).map (.atom (.literal c) :: ·)

/-- An atom, once or any number of times. -/
structure RegexPiece where
  atom : RegexAtom
  starred : Bool
  deriving DecidableEq

def regexPieces : List RegexToken → Option (List RegexPiece)
  | [] => some []
  | .atom a :: .star :: ts => (regexPieces ts).map (⟨a, true⟩ :: ·)
  | .atom a :: ts => (regexPieces ts).map (⟨a, false⟩ :: ·)
  | .star :: _ => none

def matchPieces : List RegexPiece → List Char → Bool
  | [], _ => true
  | ⟨a, false⟩ :: ps, s => s.head?.any a.accepts && matchPieces ps s.tail
  | ⟨a, true⟩ :: ps, s =>
    (List.range ((s.takeWhile a.accepts).length + 1)).any fun k => matchPieces ps (s.drop k)

/-- `$regex` with default options: a match anywhere in the text. -/
def searchRegex (regex text : String) : Bool :=
  match (regexTokens regex.toList).bind regexPieces with
  | some pieces => text.toList.tails.any (matchPieces pieces)
  | none => false

example : searchRegex "Al.*e" "Miss Alice" = true ∧ searchRegex "a.b" "a\nb" = false ∧
    searchRegex "1\\.0" "100" = false := by
  decide +kernel

/-! ## Patterns -/

/-- What a character of a pattern stands for, `wild` being the characters that a wildcard takes. -/
def chunk (wild : Char → Prop) (c : Char) : Language Char :=
  {x | if c = '%' then ∀ d ∈ x, wild d else if c = '_' then ∃ d, wild d ∧ x = [d] else x = [c]}

/-- What a pattern matches: what its characters stand for, one after the other. -/
def patternLanguage (wild : Char → Prop) (pattern : List Char) : Language Char :=
  (pattern.map (chunk wild)).prod

/-- **What SQL says**: a wildcard takes any character. -/
def likeLanguage (pattern : List Char) : Language Char := patternLanguage (fun _ => True) pattern

def lineLanguage (pattern : List Char) : Language Char := patternLanguage (· ≠ '\n') pattern

def within (l : Language Char) : Language Char := ⊤ * l * ⊤

/-- The filter of a `LIKE` comparison matches the documents with a text that SQL says it does. -/
def LikeAgrees (pattern text : String) : Prop :=
  ∀ (compiler : BeanieQueryCompiler) (field : String) (filter : MongoFilter) (document : Bson),
    compiler.visit (.comparison ⟨field, .like, .scalar (.str pattern), by simp, by simp⟩) =
      .ok filter →
    document.field? field = some (.scalar (.str text)) →
      (filter.matches searchRegex document = true ↔ text.toList ∈ likeLanguage pattern.toList)

/-! ## What the search finds -/

def pieceLanguage (p : RegexPiece) : Language Char :=
  {x | if p.starred then ∀ d ∈ x, p.atom.accepts d = true
    else ∃ d, p.atom.accepts d = true ∧ x = [d]}

theorem mem_top_mul {l : Language Char} {s : List Char} :
    s ∈ ⊤ * l ↔ ∃ t, t <:+ s ∧ t ∈ l := by
  rw [Language.mem_mul]
  constructor
  · rintro ⟨a, -, b, hb, rfl⟩
    exact ⟨b, ⟨a, rfl⟩, hb⟩
  · rintro ⟨t, ⟨a, rfl⟩, ht⟩
    exact ⟨a, trivial, t, ht, rfl⟩

/-- **Matching the beginning of a text.** -/
theorem matchPieces_iff {ps : List RegexPiece} {s : List Char} :
    matchPieces ps s = true ↔ s ∈ (ps.map pieceLanguage).prod * ⊤ := by
  induction ps generalizing s with
  | nil =>
    refine iff_of_true rfl ?_
    rw [map_nil, prod_nil, one_mul]
    trivial
  | cons p ps ih =>
    obtain ⟨a, starred⟩ := p
    rw [map_cons, prod_cons, mul_assoc, Language.mem_mul]
    cases starred with
    | false =>
      simp only [matchPieces, Bool.and_eq_true, ih]
      constructor
      · rintro ⟨hhead, htail⟩
        cases s with
        | nil => simp at hhead
        | cons d s => exact ⟨[d], ⟨d, by simpa using hhead, rfl⟩, s, htail, rfl⟩
      · rintro ⟨_, ⟨d, hd, rfl⟩, t, ht, rfl⟩
        exact ⟨by simpa using hd, ht⟩
    | true =>
      simp only [matchPieces, any_eq_true, mem_range, ih]
      constructor
      · rintro ⟨k, hk, hrest⟩
        refine ⟨s.take k, fun d hd => ?_, s.drop k, hrest, take_append_drop k s⟩
        have htaken : s.take k <+: s.takeWhile a.accepts := by
          refine prefix_of_prefix_length_le (List.take_prefix k s)
            (List.takeWhile_prefix a.accepts) ?_
          rw [length_take]
          omega
        exact mem_takeWhile_imp (htaken.subset hd)
      · rintro ⟨x, hx, t, ht, rfl⟩
        refine ⟨x.length, ?_, by rwa [drop_left]⟩
        rw [takeWhile_append_of_pos hx, length_append]
        omega

theorem any_tails_iff {ps : List RegexPiece} {s : List Char} :
    s.tails.any (matchPieces ps) = true ↔ s ∈ within (ps.map pieceLanguage).prod := by
  rw [within, mul_assoc, mem_top_mul]
  simp only [any_eq_true, mem_tails, matchPieces_iff]

/-! ## What the compiler writes -/

def likeTokens (c : Char) : List RegexToken :=
  if c = '%' then [.atom .any, .star]
  else if c = '_' then [.atom .any] else [.atom (.literal c)]

def likePiece (c : Char) : RegexPiece :=
  if c = '%' then ⟨.any, true⟩ else if c = '_' then ⟨.any, false⟩ else ⟨.literal c, false⟩

/-- The characters that `re.escape` puts a backslash before. -/
def escapedChars : List Char := "()[]\x7b\x7d?*+-|^$\\.&~# \t\n\r\x0b\x0c".toList

theorem regexTokens_escape (c : Char) (cs : List Char) :
    regexTokens ((escapeRegex c).toList ++ cs) =
      (regexTokens cs).map (.atom (.literal c) :: ·) := by
  change regexTokens ((if escapedChars.contains c then String.ofList ['\\', c]
    else String.singleton c).toList ++ cs) = _
  by_cases hc : escapedChars.contains c = true
  · have halnum : c.isAlphanum = false := by
      have hall : escapedChars.all (fun c => !c.isAlphanum) = true := by decide +kernel
      rw [contains_eq_mem, decide_eq_true_eq] at hc
      simpa using all_eq_true.mp hall c hc
    rw [if_pos hc]
    simp [regexTokens, halnum]
  · have hspecial : "\\^$[]()|?+\x7b\x7d".toList.contains c = false := by
      have hall : "\\^$[]()|?+\x7b\x7d".toList.all escapedChars.contains = true := by decide +kernel
      by_contra hmem
      rw [Bool.not_eq_false, contains_eq_mem, decide_eq_true_eq] at hmem
      exact hc (all_eq_true.mp hall c hmem)
    have hne : c ≠ '\\' ∧ c ≠ '.' ∧ c ≠ '*' := by
      refine ⟨?_, ?_, ?_⟩
      · rintro rfl
        exact hc (by decide +kernel)
      · rintro rfl
        exact hc (by decide +kernel)
      · rintro rfl
        exact hc (by decide +kernel)
    rw [if_neg hc, String.toList_singleton, singleton_append, regexTokens, if_neg]
    all_goals simp_all

theorem regexTokens_likeChar (c : Char) (cs : List Char) :
    regexTokens ((if c = '%' then ".*" else if c = '_' then "." else escapeRegex c).toList ++ cs) =
      (regexTokens cs).map (likeTokens c ++ ·) := by
  unfold likeTokens
  split_ifs with h1 h2
  · change ((regexTokens cs).map (.star :: ·)).map (.atom .any :: ·) = _
    rw [Option.map_map]
    rfl
  · rfl
  · exact regexTokens_escape c cs

theorem regexTokens_likeTokens (cs : List Char) :
    regexTokens ((cs.map fun c =>
      if c = '%' then ".*" else if c = '_' then "." else escapeRegex c).flatMap String.toList) =
      some (cs.flatMap likeTokens) := by
  induction cs with
  | nil => rfl
  | cons c cs ih =>
    rw [map_cons, flatMap_cons, flatMap_cons, regexTokens_likeChar, ih, Option.map_some]

/-- What a pattern is turned into does not begin with a star. -/
theorem likeTokens_ne_star (cs : List Char) (ts : List RegexToken) :
    cs.flatMap likeTokens ≠ .star :: ts := by
  cases cs with
  | nil => simp
  | cons c cs =>
    rw [flatMap_cons]
    unfold likeTokens
    split_ifs <;> simp

theorem regexPieces_atom {a : RegexAtom} {cs : List Char} :
    regexPieces (.atom a :: cs.flatMap likeTokens) =
      (regexPieces (cs.flatMap likeTokens)).map (⟨a, false⟩ :: ·) := by
  rw [regexPieces]
  exact fun ts h => likeTokens_ne_star cs ts h

theorem regexPieces_likeTokens (cs : List Char) :
    regexPieces (cs.flatMap likeTokens) = some (cs.map likePiece) := by
  induction cs with
  | nil => rfl
  | cons c cs ih =>
    rw [flatMap_cons, map_cons]
    by_cases h1 : c = '%'
    · simp only [likeTokens, likePiece, h1, if_true]
      change (regexPieces (cs.flatMap likeTokens)).map _ = _
      rw [ih]
      rfl
    · by_cases h2 : c = '_'
      · rw [show likeTokens c = [.atom .any] by simp [likeTokens, h2], singleton_append,
          regexPieces_atom, ih, likePiece, if_neg h1, if_pos h2]
        rfl
      · rw [show likeTokens c = [.atom (.literal c)] by simp [likeTokens, h1, h2],
          singleton_append, regexPieces_atom, ih, likePiece, if_neg h1, if_neg h2]
        rfl

theorem mem_pieceLanguage {p : RegexPiece} {x : List Char} : x ∈ pieceLanguage p ↔
    if p.starred then ∀ d ∈ x, p.atom.accepts d = true
    else ∃ d, p.atom.accepts d = true ∧ x = [d] := Iff.rfl

theorem mem_chunk {wild : Char → Prop} {c : Char} {x : List Char} : x ∈ chunk wild c ↔
    if c = '%' then ∀ d ∈ x, wild d
      else if c = '_' then ∃ d, wild d ∧ x = [d] else x = [c] := Iff.rfl

theorem pieceLanguage_likePiece (c : Char) : pieceLanguage (likePiece c) = chunk (· ≠ '\n') c := by
  apply Language.ext
  intro x
  rw [mem_pieceLanguage, mem_chunk]
  by_cases h1 : c = '%'
  · simp [likePiece, h1, RegexAtom.accepts]
  · by_cases h2 : c = '_'
    · simp [likePiece, h2, RegexAtom.accepts]
    · simp [likePiece, h1, h2, RegexAtom.accepts]

/-- **What the filter finds**: a part that the pattern matches, with its wildcards within lines. -/
theorem searchRegex_sqlLikeToRegex (pattern text : String) :
    searchRegex (sqlLikeToRegex pattern) text = true ↔
      text.toList ∈ within (lineLanguage pattern.toList) := by
  unfold searchRegex lineLanguage patternLanguage
  rw [sqlLikeToRegex, String.toList_join, regexTokens_likeTokens, Option.bind_some,
    regexPieces_likeTokens]
  simp only [any_tails_iff, map_map]
  have hpieces : pieceLanguage ∘ likePiece = chunk (· ≠ '\n') := funext pieceLanguage_likePiece
  rw [hpieces]

/-- The filter of a `LIKE` comparison is one search. -/
theorem matches_of_visit_like {compiler : BeanieQueryCompiler} {field pattern text : String}
    {filter : MongoFilter} {document : Bson}
    (h : compiler.visit (.comparison ⟨field, .like, .scalar (.str pattern), by simp, by simp⟩) =
      .ok filter) (hfield : document.field? field = some (.scalar (.str text))) :
    filter.matches searchRegex document = searchRegex (sqlLikeToRegex pattern) text := by
  obtain ⟨-, -, h⟩ := exists_of_bind_ok h
  cases h
  simp only [MongoFilter.matches, BeanieQueryCompiler.conditions, all_cons, all_nil,
    Bool.and_true, FieldOp.matches, hfield, scalarOf, Value.str]

/-- **What agreement comes to.** -/
theorem likeAgrees_iff {pattern text : String} : LikeAgrees pattern text ↔
    (text.toList ∈ within (lineLanguage pattern.toList) ↔
      text.toList ∈ likeLanguage pattern.toList) := by
  rw [← searchRegex_sqlLikeToRegex]
  constructor
  · intro h
    have hfield : (Bson.document [("text", .scalar (.str text))]).field? "text" =
        some (.scalar (.str text)) := rfl
    have hvisit : (BeanieQueryCompiler.mk ∅ 10).visit
        (.comparison ⟨"text", .like, .scalar (.str pattern), by simp, by simp⟩) =
          .ok (.field "text" [.regex (sqlLikeToRegex pattern)]) := by
      have hcheck : (BeanieQueryCompiler.mk ∅ 10).checkField "text" = .ok () := by
        simp [BeanieQueryCompiler.checkField]
      simp only [BeanieQueryCompiler.visit, TransformerNode.walk,
        BeanieQueryCompiler.visitComparison,
        hcheck]
      rfl
    rw [← h _ _ _ _ hvisit hfield, matches_of_visit_like hvisit hfield]
  · intro h compiler field filter document hvisit hfield
    rw [matches_of_visit_like hvisit hfield, h]

/-! ## Texts and patterns without line breaks -/

def isWildcard (c : Char) : Bool := c = '%' || c = '_'

/-- The wildcards before the first other character, and those after the last one, include a `%`. -/
def OpenEnds (pattern : List Char) : Prop :=
  '%' ∈ pattern.takeWhile isWildcard ∧ '%' ∈ pattern.reverse.takeWhile isWildcard

variable {wild : Char → Prop} {pattern x : List Char}

theorem patternLanguage_cons (c : Char) :
    patternLanguage wild (c :: pattern) = chunk wild c * patternLanguage wild pattern :=
  prod_cons

/-- In a text without line breaks wildcards are within lines. -/
theorem mem_lineLanguage_iff (hx : '\n' ∉ x) :
    x ∈ lineLanguage pattern ↔ x ∈ likeLanguage pattern := by
  unfold lineLanguage likeLanguage
  induction pattern generalizing x with
  | nil => rfl
  | cons c pattern ih =>
    rw [patternLanguage_cons, patternLanguage_cons, Language.mem_mul, Language.mem_mul]
    have hchunk : ∀ a, '\n' ∉ a → (a ∈ chunk (· ≠ '\n') c ↔ a ∈ chunk (fun _ => True) c) := by
      intro a ha
      rw [mem_chunk, mem_chunk]
      split_ifs
      · exact iff_of_true (fun d hd he => ha (he ▸ hd)) fun _ _ => trivial
      · constructor
        · rintro ⟨d, -, rfl⟩
          exact ⟨d, trivial, rfl⟩
        · rintro ⟨d, -, rfl⟩
          exact ⟨d, fun he => ha (he ▸ mem_singleton_self d), rfl⟩
      · rfl
    constructor
    · rintro ⟨a, ha, b, hb, rfl⟩
      rw [mem_append, not_or] at hx
      exact ⟨a, (hchunk a hx.1).mp ha, b, (ih hx.2).mp hb, rfl⟩
    · rintro ⟨a, ha, b, hb, rfl⟩
      rw [mem_append, not_or] at hx
      exact ⟨a, (hchunk a hx.1).mpr ha, b, (ih hx.2).mpr hb, rfl⟩

theorem mem_within {l : Language Char} : x ∈ within l ↔ ∃ a b c, b ∈ l ∧ a ++ b ++ c = x := by
  unfold within
  simp only [Language.mem_mul]
  constructor
  · rintro ⟨_, ⟨a, -, b, hb, rfl⟩, c, -, rfl⟩
    exact ⟨a, b, c, hb, rfl⟩
  · rintro ⟨a, b, c, hb, rfl⟩
    exact ⟨a ++ b, ⟨a, trivial, b, hb, rfl⟩, c, trivial, rfl⟩

theorem mem_within_lineLanguage_iff (hx : '\n' ∉ x) :
    x ∈ within (lineLanguage pattern) ↔ x ∈ within (likeLanguage pattern) := by
  rw [mem_within, mem_within]
  constructor
  · rintro ⟨a, b, c, hb, rfl⟩
    simp only [mem_append, not_or] at hx
    exact ⟨a, b, c, (mem_lineLanguage_iff hx.1.2).mp hb, rfl⟩
  · rintro ⟨a, b, c, hb, rfl⟩
    simp only [mem_append, not_or] at hx
    exact ⟨a, b, c, (mem_lineLanguage_iff hx.1.2).mpr hb, rfl⟩

/-- A `%` among the first wildcards takes whatever comes before. -/
theorem append_mem_likeLanguage (h : '%' ∈ pattern.takeWhile isWildcard)
    (hx : x ∈ likeLanguage pattern) (a : List Char) : a ++ x ∈ likeLanguage pattern := by
  unfold likeLanguage at *
  induction pattern generalizing x a with
  | nil => cases h
  | cons c pattern ih =>
    rw [patternLanguage_cons, Language.mem_mul] at *
    obtain ⟨y, hy, z, hz, rfl⟩ := hx
    by_cases h1 : c = '%'
    · refine ⟨a ++ y, ?_, z, hz, append_assoc a y z⟩
      simp [mem_chunk, h1]
    · have h2 : c = '_' := by
        by_contra h2
        simp [isWildcard, h1, h2] at h
      have htail : '%' ∈ pattern.takeWhile isWildcard := by
        simpa [isWildcard, h2] using h
      cases a with
      | nil => exact ⟨y, hy, z, hz, rfl⟩
      | cons d a =>
        refine ⟨[d], by simp [mem_chunk, h2], a ++ y ++ z, ?_, by simp⟩
        exact ih htail hz (a ++ y)

theorem reverse_mem_chunk (c : Char) : (chunk wild c).reverse = chunk wild c := by
  apply Language.ext
  intro x
  rw [Language.mem_reverse, mem_chunk, mem_chunk]
  split_ifs <;> simp [reverse_eq_iff]

theorem patternLanguage_append (p q : List Char) :
    patternLanguage wild (p ++ q) = patternLanguage wild p * patternLanguage wild q := by
  unfold patternLanguage
  rw [map_append, prod_append]

theorem reverse_patternLanguage :
    (patternLanguage wild pattern).reverse = patternLanguage wild pattern.reverse := by
  induction pattern with
  | nil => exact Language.reverse_one
  | cons c pattern ih =>
    rw [patternLanguage_cons, Language.reverse_mul, ih, reverse_mem_chunk, reverse_cons,
      patternLanguage_append, patternLanguage_cons]
    rw [show patternLanguage wild [] = 1 from rfl, mul_one]

/-- With open ends the pattern matches a text if it matches a part of it. -/
theorem mem_likeLanguage_of_within (h : OpenEnds pattern) (hx : x ∈ within (likeLanguage pattern)) :
    x ∈ likeLanguage pattern := by
  obtain ⟨a, b, c, hb, rfl⟩ := mem_within.mp hx
  have hab := append_mem_likeLanguage h.1 hb a
  have hrev : (a ++ b).reverse ∈ likeLanguage pattern.reverse := by
    unfold likeLanguage
    rw [← reverse_patternLanguage, Language.reverse_mem_reverse]
    exact hab
  have happ := append_mem_likeLanguage h.2 hrev c.reverse
  unfold likeLanguage at happ
  rw [← reverse_append, ← reverse_patternLanguage, Language.reverse_mem_reverse] at happ
  exact happ

theorem mem_likeLanguage_replicate {i : ℕ} : x ∈ likeLanguage (List.replicate i '_' ++ pattern) ↔
    i ≤ x.length ∧ x.drop i ∈ likeLanguage pattern := by
  induction i generalizing x with
  | zero => simp
  | succ i ih =>
    rw [replicate_succ, cons_append, likeLanguage, patternLanguage_cons, Language.mem_mul]
    constructor
    · rintro ⟨_, ⟨d, -, rfl⟩, y, hy, rfl⟩
      obtain ⟨hlen, hdrop⟩ := ih.mp hy
      exact ⟨by simpa using hlen, hdrop⟩
    · rintro ⟨hlen, hdrop⟩
      cases x with
      | nil => simp at hlen
      | cons d x =>
        exact ⟨[d], by simp [mem_chunk], x, ih.mpr ⟨by simpa using hlen, hdrop⟩, rfl⟩

/-- A text that a pattern matches, on one line if the pattern is. -/
theorem exists_mem_likeLanguage (hline : '\n' ∉ pattern) :
    ∃ x, '\n' ∉ x ∧ x ∈ likeLanguage pattern := by
  unfold likeLanguage
  induction pattern with
  | nil => exact ⟨[], not_mem_nil, rfl⟩
  | cons c pattern ih =>
    rw [mem_cons, not_or] at hline
    obtain ⟨hc, hline⟩ := hline
    obtain ⟨x, hx, hmem⟩ := ih hline
    rw [patternLanguage_cons]
    by_cases h1 : c = '%'
    · exact ⟨x, hx, Language.mem_mul.mpr ⟨[], by simp [mem_chunk, h1], x, hmem, rfl⟩⟩
    · refine ⟨c :: x, by simp [hc, hx], Language.mem_mul.mpr ⟨[c], ?_, x, hmem, rfl⟩⟩
      simp [mem_chunk, h1]

/-- The wildcards before the first other character, if there is no `%` among them. -/
theorem takeWhile_eq_replicate (h : '%' ∉ pattern.takeWhile isWildcard) :
    pattern.takeWhile isWildcard = List.replicate (pattern.takeWhile isWildcard).length '_' := by
  refine eq_replicate_of_mem fun c hc => ?_
  have hwild := mem_takeWhile_imp hc
  simp only [isWildcard, Bool.or_eq_true, decide_eq_true_eq] at hwild
  exact hwild.resolve_left fun he => h (he ▸ hc)

/-- A pattern without a `%` among its first wildcards can be matched by a part alone. -/
theorem exists_not_open (h : '%' ∉ pattern.takeWhile isWildcard) (hline : '\n' ∉ pattern) :
    ∃ a x, '\n' ∉ a ++ x ∧ x ∈ likeLanguage pattern ∧ a ++ x ∉ likeLanguage pattern := by
  have hsplit := takeWhile_append_dropWhile (p := isWildcard) (l := pattern)
  rw [takeWhile_eq_replicate h] at hsplit
  generalize (pattern.takeWhile isWildcard).length = i at hsplit
  cases hrest : pattern.dropWhile isWildcard with
  | nil =>
    rw [hrest] at hsplit
    rw [← hsplit]
    refine ⟨['x'], List.replicate i 'x', by simp, ?_, ?_⟩
    · refine mem_likeLanguage_replicate.mpr ⟨by simp, ?_⟩
      rw [drop_replicate, Nat.sub_self]
      rfl
    · intro hmem
      have hdrop : (['x'] ++ List.replicate i 'x').drop i = [] :=
        (mem_likeLanguage_replicate.mp hmem).2
      have hlen := congrArg List.length hdrop
      simp at hlen
  | cons c q =>
    rw [hrest] at hsplit
    have hc : isWildcard c = false := by
      have hhead := List.head?_dropWhile_not isWildcard pattern
      rwa [hrest] at hhead
    simp only [isWildcard, Bool.or_eq_false_iff, decide_eq_false_iff_not] at hc
    rw [← hsplit] at hline ⊢
    simp only [mem_append, mem_cons, not_or] at hline
    obtain ⟨x, hx, hmem⟩ := exists_mem_likeLanguage hline.2.2
    -- a character that the pattern does not have at its first place
    obtain ⟨y, hy, hyline⟩ : ∃ y, y ≠ c ∧ '\n' ≠ y := by
      rcases eq_or_ne c 'x' with rfl | hcx
      · exact ⟨'y', by decide, by decide⟩
      · exact ⟨'x', hcx.symm, by decide⟩
    have hcons : ∀ z, z ∈ likeLanguage (c :: q) → z.head? = some c := by
      intro z hz
      rw [likeLanguage, patternLanguage_cons, Language.mem_mul] at hz
      obtain ⟨b, hb, t, -, rfl⟩ := hz
      simp only [mem_chunk, hc, if_false] at hb
      rw [hb]
      rfl
    refine ⟨[y], List.replicate i y ++ c :: x, ?_, ?_, ?_⟩
    · simp [hyline, hline.2.1, hx]
    · refine mem_likeLanguage_replicate.mpr ⟨by simp, ?_⟩
      rw [drop_left' (length_replicate ..), likeLanguage, patternLanguage_cons]
      exact Language.mem_mul.mpr ⟨[c], by simp [mem_chunk, hc], x, hmem, rfl⟩
    · intro hall
      have hhead := hcons _ (mem_likeLanguage_replicate.mp hall).2
      rw [← append_assoc, singleton_append, ← replicate_succ, replicate_succ',
        append_assoc, drop_left' (length_replicate ..)] at hhead
      exact hy (Option.some.inj hhead)

/-- A part of a text on one line that the pattern matches, without the whole text, shows that the
filter and SQL differ. -/
theorem not_likeAgrees {pattern : String} {a b c : List Char} (hline : '\n' ∉ a ++ b ++ c)
    (hpart : b ∈ likeLanguage pattern.toList) (hwhole : a ++ b ++ c ∉ likeLanguage pattern.toList) :
    ¬LikeAgrees pattern (String.ofList (a ++ b ++ c)) := by
  intro h
  rw [likeAgrees_iff, String.toList_ofList, mem_within_lineLanguage_iff hline] at h
  exact hwhole (h.mp (mem_within.mpr ⟨a, b, c, hpart, rfl⟩))

/-- **When LIKE has its SQL meaning on MongoDB.** On a text: if the pattern matches the text just in
case it matches a part of it with its wildcards within lines. A pattern on one line, on every such
text: if and only if the wildcards at both its ends include a `%`. -/
theorem like_on_mongo (pattern : String) :
    (∀ text : String, LikeAgrees pattern text ↔
      (text.toList ∈ within (lineLanguage pattern.toList) ↔
        text.toList ∈ likeLanguage pattern.toList)) ∧
    ('\n' ∉ pattern.toList →
      ((∀ text : String, '\n' ∉ text.toList → LikeAgrees pattern text) ↔
        OpenEnds pattern.toList)) := by
  refine ⟨fun _ => likeAgrees_iff, fun hline => ⟨fun h => ⟨?_, ?_⟩, fun hopen text htext => ?_⟩⟩
  · by_contra hnot
    obtain ⟨a, x, hax, hx, hmem⟩ := exists_not_open hnot hline
    refine not_likeAgrees (a := a) (b := x) (c := []) (by simpa using hax) hx (by simpa using hmem)
      (h _ ?_)
    simpa using hax
  · by_contra hnot
    obtain ⟨a, x, hax, hx, hmem⟩ := exists_not_open hnot (by simpa using hline)
    have hrev : ∀ z, z ∈ likeLanguage pattern.toList.reverse ↔
        z.reverse ∈ likeLanguage pattern.toList := fun z => by
      rw [likeLanguage, ← reverse_patternLanguage, Language.mem_reverse, likeLanguage]
    rw [hrev] at hx hmem
    rw [reverse_append] at hmem
    have hline' : '\n' ∉ [] ++ x.reverse ++ a.reverse := by
      simp only [mem_append, not_or] at hax
      simp [hax.1, hax.2]
    refine not_likeAgrees (a := []) hline' hx hmem (h _ ?_)
    rwa [String.toList_ofList]
  · rw [likeAgrees_iff, mem_within_lineLanguage_iff htext]
    exact ⟨mem_likeLanguage_of_within hopen, fun h => mem_within.mpr ⟨[], _, [], h, by simp⟩⟩

theorem mem_likeLanguage_literal {cs : List Char} (h : cs.any isWildcard = false) :
    x ∈ likeLanguage cs ↔ x = cs := by
  induction cs generalizing x with
  | nil => rfl
  | cons c cs ih =>
    rw [any_cons, Bool.or_eq_false_iff] at h
    obtain ⟨hc, hcs⟩ := h
    simp only [isWildcard, Bool.or_eq_false_iff, decide_eq_false_iff_not] at hc
    rw [likeLanguage, patternLanguage_cons, Language.mem_mul]
    constructor
    · rintro ⟨a, ha, b, hb, rfl⟩
      simp only [mem_chunk, hc, if_false] at ha
      rw [ha, (ih hcs).mp hb]
      rfl
    · rintro rfl
      exact ⟨[c], by simp [mem_chunk, hc], cs, (ih hcs).mpr rfl, rfl⟩

/-- A name is found inside a longer one, and a `%` does not reach over a line break. -/
theorem like_on_mongo_differs : ¬LikeAgrees "Alice" "Malice Alices" ∧
    ¬LikeAgrees "Alice%Bob" "Alice\nBob" := by
  constructor
  · intro h
    rw [likeAgrees_iff, ← searchRegex_sqlLikeToRegex] at h
    have hmem := h.mp (by decide +kernel)
    rw [mem_likeLanguage_literal (by decide)] at hmem
    exact absurd hmem (by decide)
  · intro h
    rw [likeAgrees_iff, ← searchRegex_sqlLikeToRegex] at h
    have hmem : "Alice\nBob".toList ∈ likeLanguage "Alice%Bob".toList := by
      have hsplit : "Alice%Bob".toList = "Alice".toList ++ '%' :: "Bob".toList := by decide
      rw [hsplit, likeLanguage, patternLanguage_append, patternLanguage_cons]
      have hliteral : ∀ {cs : List Char}, cs.any isWildcard = false →
          cs ∈ patternLanguage (fun _ => True) cs :=
            fun hcs => (mem_likeLanguage_literal hcs).mpr rfl
      exact Language.mem_mul.mpr ⟨"Alice".toList, hliteral (by decide), '\n' :: "Bob".toList,
        Language.mem_mul.mpr ⟨['\n'], by simp [mem_chunk], "Bob".toList, hliteral (by decide), rfl⟩,
        by decide⟩
    exact absurd (h.mpr hmem) (by decide +kernel)

end Varco
