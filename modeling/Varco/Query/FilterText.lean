import Mathlib.Data.List.TakeWhile
import Mathlib.Tactic.FinCases
import Varco.Query.Grammar

/-!
# Writing a filter string

A tree of literals as text: every connective in parentheses, strings in the form of
`ESCAPED_STRING`, numbers in decimal, and a blank before each token. The scanner gives the tokens
back (`tokenize_text`), if each string has one line.
-/

namespace Varco

open Option List

open FilterToken (keyword)

/-! ## Literals -/

/-- A value that can be written: a text, an integer, or a number `m * 10 ^ -scale`, as the `float`
that is nearest to it or as a decimal. -/
inductive FilterLiteral
  | str (s : String)
  | int (n : ℤ)
  | float (m : ℤ) (scale : ℕ)
  | decimal (m : ℤ) (scale : ℕ)

def escaped (cs : List Char) : List Char :=
  cs.flatMap fun c => if c = '\x22' ∨ c = '\\' then ['\\', c] else [c]

/-- The last `scale` digits of a number. -/
def lastDigits : ℕ → ℕ → List Char
  | 0, _ => []
  | scale + 1, n => lastDigits scale (n / 10) ++ [Nat.digitChar (n % 10)]

/-- A number in decimal, with its digits behind the point if there is one. -/
def numeral (negative : Bool) (whole : ℕ) (decimals : Option (List Char)) : List Char :=
  (if negative then ['-'] else []) ++ (Nat.toDigits 10 whole ++
    decimals.elim [] fun digits => '.' :: digits)

/-- The number `m * 10 ^ -scale` in decimal. -/
def decimalNumeral (m : ℤ) (scale : ℕ) : List Char :=
  numeral (m < 0) (m.natAbs / 10 ^ scale) (some (lastDigits scale m.natAbs))

namespace FilterLiteral

/-- The number `m * 10 ^ -scale`. -/
def scaled (m : ℤ) (scale : ℕ) : ℚ := m / 10 ^ scale

def value : FilterLiteral → FilterScalar
  | .str s => .str s
  | .int n => .int n
  | .float m scale => .float (.nearest (scaled m scale))
  | .decimal m scale => .float (.finite (scaled m scale))

def token : FilterLiteral → FilterToken
  | .str s => .string ('\x22' :: (escaped s.toList ++ ['\x22']))
  | .int n => .number (numeral (n < 0) n.natAbs none)
  | .float m scale | .decimal m scale => .number (decimalNumeral m scale)

/-- An `ESCAPED_STRING` has one line. -/
def oneLine : FilterLiteral → Bool
  | .str s => s.toList.all (· ≠ '\n')
  | _ => true

end FilterLiteral

/-! ## Trees -/

def Operation.token : Operation → FilterToken
  | .equal => .op ['=']
  | .notEqual => .op ['!', '=']
  | .greaterThan => .op ['>']
  | .lessThan => .op ['<']
  | .greaterEqual => .op ['>', '=']
  | .lessEqual => .op ['<', '=']
  | .like => .op "LIKE".toList
  | .in_ => keyword "IN"
  | .isNull | .isNotNull => keyword "IS"

def Operation.isBinary : Operation → Bool
  | .in_ | .isNull | .isNotNull => false
  | _ => true

/-- A `CNAME` that is no keyword. -/
def IsFilterName (s : String) : Prop :=
  s.toList.head?.any isNameStart = true ∧ s.toList.all isNameChar = true ∧
    s.toList ∉ filterKeywords

def FilterValue.all {α : Type} : FilterValue α → List α
  | .none => []
  | .scalar x => [x]
  | .list xs => xs

/-- `("," value)* ")"` -/
def valuesTokens (xs : List FilterLiteral) : List FilterToken :=
  xs.flatMap (fun x => [.comma, x.token]) ++ [.rpar]

namespace FilterComparison

/-- The operator and the value belong together, as in every `ComparisonNode` of a filter. -/
def WellFormed (node : FilterComparison FilterLiteral) : Prop :=
  IsFilterName node.field ∧
    match node.value with
    | .none => node.op = .isNull ∨ node.op = .isNotNull
    | .scalar _ => node.op.isBinary = true
    | .list _ => node.op = .in_

def tokens (node : FilterComparison FilterLiteral) : List FilterToken :=
  .name node.field.toList :: node.op.token ::
    match node.value with
    | .none => if node.op = .isNull then [keyword "NULL"] else [keyword "NOT", keyword "NULL"]
    | .scalar x => [x.token]
    | .list [] => [.lpar, .rpar]
    | .list (x :: xs) => .lpar :: x.token :: valuesTokens xs

end FilterComparison

namespace FilterNode

def WellFormed : FilterNode FilterLiteral → Prop
  | .comparison node => node.WellFormed
  | .and left right | .or left right => left.WellFormed ∧ right.WellFormed
  | .not child => child.WellFormed

def tokens : FilterNode FilterLiteral → List FilterToken
  | .comparison node => node.tokens
  | .and left right => .lpar :: (left.tokens ++ keyword "AND" :: right.tokens ++ [.rpar])
  | .or left right => .lpar :: (left.tokens ++ keyword "OR" :: right.tokens ++ [.rpar])
  | .not child => .lpar :: (keyword "NOT" :: child.tokens ++ [.rpar])

def oneLine : FilterNode FilterLiteral → Bool
  | .comparison node => node.value.all.all FilterLiteral.oneLine
  | .and left right | .or left right => left.oneLine && right.oneLine
  | .not child => child.oneLine

end FilterNode

def tokensText (tokens : List FilterToken) : List Char :=
  tokens.flatMap fun token => ' ' :: token.text

def FilterNode.text (t : FilterNode FilterLiteral) : String := String.ofList (tokensText t.tokens)

/-! ## Scanning a token -/

def Breaks (rest : List Char) : Prop := ∀ c ∈ rest.head?, c = ' '

/-- The token is read in the context, if `b`. -/
def FilterToken.Reads (context : LexerContext) (token : FilterToken) (b : Bool) : Prop :=
  token.text.head?.any (!isFilterSpace ·) = true ∧ ∀ rest, Breaks rest →
    scanToken context (token.text ++ rest) = if b then some (token, rest) else none

/-- The tokens are read one after the other, from one context to another, if `b`. -/
def Scans (context : LexerContext) (tokens : List FilterToken) (context' : LexerContext)
    (b : Bool) : Prop :=
  ∀ n post, tokens.length ≤ n → scan n context (tokensText (tokens ++ post)) =
    if b then (scan (n - tokens.length) context' (tokensText post)).map (tokens ++ ·) else none

variable {cs : List Char} {rest : List Char}

theorem takeWhile_of_breaks {p : Char → Bool} (h : ∀ c ∈ cs, p c = true)
    (hblank : p ' ' = false) (hrest : Breaks rest) : (cs ++ rest).takeWhile p = cs := by
  rw [takeWhile_append_of_pos h]
  cases rest with
  | nil => simp
  | cons c rest =>
    obtain rfl := hrest c rfl
    simp [hblank]

theorem dropWhile_of_breaks {p : Char → Bool} (h : ∀ c ∈ cs, p c = true)
    (hblank : p ' ' = false) (hrest : Breaks rest) : (cs ++ rest).dropWhile p = rest := by
  rw [dropWhile_append_of_pos h]
  cases rest with
  | nil => rfl
  | cons c rest =>
    obtain rfl := hrest c rfl
    simp [hblank]

variable {c : Char}

theorem isNameStart_ne (h : isNameStart c = true) : c ≠ '(' ∧ isFilterSpace c = false := by
  constructor
  · rintro rfl
    exact absurd h (by decide)
  · rw [Bool.eq_false_iff]
    intro hspace
    rw [isFilterSpace, contains_iff_mem] at hspace
    fin_cases hspace <;> exact absurd h (by decide)

/-- A terminal with one text, behind which there is a blank or nothing. -/
theorem reads_fixed {context : LexerContext} {token : FilterToken} (h : token ∈ context.fixed) :
    token.Reads context true := by
  have hread : ∀ rest, Breaks rest →
      scanToken context (token.text ++ rest) = some (token, rest) := by
    intro rest hrest
    cases rest with
    | nil => cases context <;> fin_cases h <;> rfl
    | cons c rest =>
      obtain rfl := hrest c rfl
      cases context <;> fin_cases h <;> rfl
  refine ⟨?_, hread⟩
  cases context <;> fin_cases h <;> rfl

theorem scanToken_term (h : isNameStart c = true) :
    scanToken .term (c :: cs) = scanName (c :: cs) := by
  have hlpar : c ≠ '(' := (isNameStart_ne h).1
  simp [scanToken, LexerContext.fixed, FilterToken.text, hlpar.symm]

theorem reads_name {text : List Char} (hstart : text.head?.any isNameStart = true)
    (hall : text.all isNameChar = true) (hnot : text ≠ "NOT".toList) :
    (FilterToken.name text).Reads .term true := by
  cases text with
  | nil => cases hstart
  | cons c cs =>
    have hc : isNameStart c = true := hstart
    have hcs : ∀ d ∈ cs, isNameChar d = true := fun d hd =>
      all_eq_true.mp hall d (mem_cons_of_mem _ hd)
    refine ⟨?_, fun rest hrest => ?_⟩
    · change (!isFilterSpace c) = true
      rw [(isNameStart_ne hc).2]
      rfl
    · change scanToken .term (c :: (cs ++ rest)) = _
      rw [scanToken_term hc, scanName, takeWhile_of_breaks hcs (by decide) hrest,
        dropWhile_of_breaks hcs (by decide) hrest, hc]
      exact if_neg hnot

theorem reads_not : (keyword "NOT").Reads .term true := by
  refine ⟨by decide, fun rest hrest => ?_⟩
  cases rest with
  | nil => rfl
  | cons c rest =>
    obtain rfl := hrest c rfl
    rfl

theorem scanString_escaped_cons (hc : c ≠ '\n') :
    scanString (escaped (c :: cs) ++ rest) =
      (scanString (escaped cs ++ rest)).map fun (text, rest) => (escaped [c] ++ text, rest) := by
  change scanString ((if c = '\x22' ∨ c = '\\' then ['\\', c] else [c]) ++ escaped cs ++ rest) = _
  by_cases hspecial : c = '\x22' ∨ c = '\\'
  · rw [if_pos hspecial]
    change scanString ('\\' :: c :: (escaped cs ++ rest)) = _
    rw [scanString]
    · simp [escaped, hspecial]
    · exact hc
  · rw [if_neg hspecial]
    change scanString (c :: (escaped cs ++ rest)) = _
    rw [scanString]
    all_goals simp_all [escaped]

/-- A text is read up to the closing quote, if it has one line. -/
theorem scanString_escaped (cs rest : List Char) :
    scanString (escaped cs ++ '\x22' :: rest) =
      if cs.all (· ≠ '\n') then some (escaped cs ++ ['\x22'], rest) else none := by
  induction cs with
  | nil => rfl
  | cons c cs ih =>
    by_cases hc : c = '\n'
    · subst hc
      rfl
    · have happend : escaped (c :: cs) = escaped [c] ++ escaped cs := @flatMap_append _ _ [c] cs _
      rw [scanString_escaped_cons hc, ih, happend]
      simp [hc, apply_ite (Option.map _)]

/-! ## Scanning a number -/

theorem isDigit_ne (h : c.isDigit = true) :
    c ∉ ['(', ')', ',', '=', '!', '>', '<', '\x22', '+', '-', '.', 'e', 'E', '_'] ∧
      isNameStart c = false ∧ isFilterSpace c = false := by
  have hmem : c ∉ ['(', ')', ',', '=', '!', '>', '<', '\x22', '+', '-', '.', 'e', 'E', '_'] := by
    intro hmem
    fin_cases hmem <;> exact absurd h (by decide)
  have halpha : c.isAlpha = false := by
    unfold Char.isDigit at h
    unfold Char.isAlpha Char.isUpper Char.isLower
    simp only [Bool.and_eq_true, decide_eq_true_eq, Bool.or_eq_false_iff, Bool.and_eq_false_iff,
      decide_eq_false_iff_not, UInt32.le_iff_toNat_le] at h ⊢
    simp at h ⊢
    omega
  refine ⟨hmem, ?_, ?_⟩
  · have hunderscore : c ≠ '_' := fun heq => hmem (by simp [heq])
    rw [isNameStart, halpha, Bool.false_or]
    exact beq_false_of_ne hunderscore
  · rw [Bool.eq_false_iff]
    intro hspace
    rw [isFilterSpace, contains_iff_mem] at hspace
    fin_cases hspace <;> exact absurd h (by decide)

theorem isDigit_of_mem_lastDigits {scale n : ℕ} (h : c ∈ lastDigits scale n) :
    c.isDigit = true := by
  induction scale generalizing n with
  | zero => cases h
  | succ scale ih =>
    rcases mem_append.mp h with h | h
    · exact ih h
    · rw [mem_singleton.mp h, Nat.isDigit_digitChar]
      exact decide_eq_true (Nat.mod_lt _ (by decide))

theorem length_lastDigits (scale n : ℕ) : (lastDigits scale n).length = scale := by
  induction scale generalizing n with
  | zero => rfl
  | succ scale ih => rw [lastDigits, length_append, ih, length_singleton]

theorem ofDigitChars_lastDigits (scale n init : ℕ) :
    Nat.ofDigitChars 10 (lastDigits scale n) init = init * 10 ^ scale + n % 10 ^ scale := by
  induction scale generalizing n with
  | zero => simp [lastDigits, Nat.mod_one]
  | succ scale ih =>
    have hlt : n % 10 < 10 := Nat.mod_lt _ (by decide)
    have hmod : n % 10 ^ (scale + 1) = n % 10 + 10 * (n / 10 % 10 ^ scale) := by
      rw [Nat.pow_succ', Nat.mod_mul]
    rw [lastDigits, Nat.ofDigitChars_append, ih, Nat.ofDigitChars_cons_digitChar_of_lt_ten hlt,
      Nat.ofDigitChars_nil, hmod]
    ring

theorem isDigit_of_mem_toDigits {n : ℕ} (h : c ∈ Nat.toDigits 10 n) :
    c.isDigit = true := Nat.isDigit_of_mem_toDigits (by decide) (by decide) h

theorem scanSign_of_isDigit (h : c.isDigit = true) :
    scanSign (c :: cs) = ([], c :: cs) := by
  have hmem := (isDigit_ne h).1
  rw [scanSign]
  all_goals
    rintro _ heq
    obtain rfl := (List.cons.inj heq).1
    exact hmem (by decide)

theorem scanSign_numeral (negative : Bool) (whole : ℕ) (rest : List Char) :
    scanSign ((if negative then ['-'] else []) ++ (Nat.toDigits 10 whole ++ rest)) =
      (if negative then ['-'] else [], Nat.toDigits 10 whole ++ rest) := by
  cases negative with
  | true => rfl
  | false =>
    cases hdigits : Nat.toDigits 10 whole with
    | nil => exact absurd hdigits Nat.toDigits_ne_nil
    | cons c cs =>
      refine scanSign_of_isDigit (isDigit_of_mem_toDigits (n := whole) ?_)
      rw [hdigits]
      exact mem_cons_self

theorem scanExponent_of_breaks (h : Breaks rest) :
    scanExponent rest = ([], rest) := by
  cases rest with
  | nil => rfl
  | cons c rest =>
    obtain rfl := h c rfl
    simp [scanExponent]

variable {decimals : Option (List Char)}

theorem scanNumber_numeral (negative : Bool) (whole : ℕ)
    (hdigits : ∀ digits ∈ decimals, ∀ c ∈ digits, c.isDigit = true)
    (hrest : Breaks rest) :
    scanNumber (numeral negative whole decimals ++ rest) =
      some (numeral negative whole decimals, rest) := by
  have hwhole : ∀ c ∈ Nat.toDigits 10 whole, c.isDigit = true := fun c => isDigit_of_mem_toDigits
  have hne : Nat.toDigits 10 whole ≠ [] := Nat.toDigits_ne_nil
  unfold numeral scanNumber
  rw [append_assoc, append_assoc, scanSign_numeral]
  cases decimals with
  | none =>
    have hdecimals : scanDecimals rest = ([], rest) := by
      cases rest with
      | nil => rfl
      | cons c rest =>
        obtain rfl := hrest c rfl
        rfl
    simp only [elim_none, nil_append, takeWhile_of_breaks hwhole (by decide) hrest,
      dropWhile_of_breaks hwhole (by decide) hrest, hdecimals, hne, false_and, ↓reduceIte,
      scanExponent_of_breaks hrest, append_nil]
  | some digits =>
    have hdot : ∀ tail : List Char,
        (Nat.toDigits 10 whole ++ '.' :: tail).takeWhile (·.isDigit) = Nat.toDigits 10 whole ∧
        (Nat.toDigits 10 whole ++ '.' :: tail).dropWhile (·.isDigit) = '.' :: tail := by
      intro tail
      rw [takeWhile_append_of_pos hwhole, dropWhile_append_of_pos hwhole]
      exact ⟨by simp, by simp⟩
    have hall := hdigits digits rfl
    simp only [elim_some, cons_append, (hdot _).1, (hdot _).2, scanDecimals,
      takeWhile_of_breaks hall (by decide) hrest, dropWhile_of_breaks hall (by decide) hrest, hne,
      false_and, ↓reduceIte, scanExponent_of_breaks hrest, append_nil, append_assoc]

/-- **A numeral denotes its number.** -/
theorem numberValue_numeral (negative : Bool) (whole : ℕ)
    (hdigits : ∀ digits ∈ decimals, ∀ c ∈ digits, c.isDigit = true) :
    numberValue (numeral negative whole decimals) = (if negative then -1 else 1) *
      Nat.ofDigitChars 10 (Nat.toDigits 10 whole ++ decimals.getD []) 0 *
        (10 : ℚ) ^ (-((decimals.getD []).length : ℤ)) := by
  have hplain : ∀ c ∈ Nat.toDigits 10 whole ++ decimals.elim [] (fun digits => '.' :: digits),
      (decide (c ≠ 'e' ∧ c ≠ 'E')) = true := by
    intro c hc
    have hcase : c.isDigit = true ∨ c = '.' := by
      rcases mem_append.mp hc with hc | hc
      · exact Or.inl (isDigit_of_mem_toDigits hc)
      · cases decimals with
        | none => cases hc
        | some digits =>
          rcases mem_cons.mp hc with hc | hc
          · exact Or.inr hc
          · exact Or.inl (hdigits digits rfl c hc)
    rcases hcase with hc | rfl
    · have hmem := (isDigit_ne hc).1
      refine decide_eq_true ⟨fun heq => hmem (by simp [heq]), fun heq => hmem (by simp [heq])⟩
    · decide
  have hnodot : ∀ c ∈ Nat.toDigits 10 whole, (decide (c ≠ '.')) = true := by
    intro c hc
    exact decide_eq_true fun heq => (isDigit_ne (isDigit_of_mem_toDigits hc)).1 (by simp [heq])
  have htake : (Nat.toDigits 10 whole ++ decimals.elim [] (fun digits => '.' :: digits)).takeWhile
      (· ≠ '.') = Nat.toDigits 10 whole := by
    rw [takeWhile_append_of_pos hnodot]
    cases decimals <;> simp
  have hdrop : ((Nat.toDigits 10 whole ++ decimals.elim [] (fun digits => '.' :: digits)).dropWhile
      (· ≠ '.')).drop 1 = decimals.getD [] := by
    rw [dropWhile_append_of_pos hnodot]
    cases decimals <;> simp
  unfold numeral numberValue
  rw [scanSign_numeral]
  simp only [takeWhile_eq_self_iff.mpr hplain, dropWhile_eq_nil_iff.mpr hplain,
    drop_nil, scanSign, htake, hdrop, Nat.ofDigitChars_nil]
  cases negative <;> simp

theorem numberValue_int (n : ℤ) : numberValue (numeral (n < 0) n.natAbs none) = n := by
  rw [numberValue_numeral _ _ fun _ h => (not_mem_none _ h).elim]
  simp only [getD_none, append_nil, Nat.ofDigitChars_ten_toDigits, length_nil,
    Nat.cast_zero, neg_zero, zpow_zero, mul_one, decide_eq_true_eq]
  split_ifs with hneg
  · rw [Nat.cast_natAbs, abs_of_neg hneg]
    push_cast
    ring
  · rw [Nat.cast_natAbs, abs_of_nonneg (not_lt.mp hneg), one_mul]

theorem numberValue_decimal (m : ℤ) (scale : ℕ) :
    numberValue (decimalNumeral m scale) = FilterLiteral.scaled m scale := by
  have hdigits : ∀ digits ∈ some (lastDigits scale m.natAbs), ∀ c ∈ digits, c.isDigit = true := by
    rintro _ ⟨⟩ c hc
    exact isDigit_of_mem_lastDigits hc
  have hnat : Nat.ofDigitChars 10 (Nat.toDigits 10 (m.natAbs / 10 ^ scale) ++
      lastDigits scale m.natAbs) 0 = m.natAbs := by
    rw [Nat.ofDigitChars_append, Nat.ofDigitChars_ten_toDigits, ofDigitChars_lastDigits,
      Nat.div_add_mod']
  have hint := numberValue_int m
  rw [numberValue_numeral _ _ fun _ h => (not_mem_none _ h).elim] at hint
  simp only [getD_none, append_nil, Nat.ofDigitChars_ten_toDigits, length_nil,
    Nat.cast_zero, neg_zero, zpow_zero, mul_one] at hint
  unfold decimalNumeral FilterLiteral.scaled
  rw [numberValue_numeral _ _ hdigits, getD_some, hnat, length_lastDigits, hint, zpow_neg,
    zpow_natCast, div_eq_mul_inv]

variable {context : LexerContext}

theorem scanToken_value (h : context = .op ∨ context = .items) (hc : c ≠ ')') :
    scanToken context (c :: cs) = scanValue (c :: cs) := by
  rcases h with rfl | rfl
  · rfl
  · simp [scanToken, LexerContext.fixed, FilterToken.text, hc.symm]

theorem reads_number (h : context = .op ∨ context = .items) (negative : Bool) (whole : ℕ)
    (hdigits : ∀ digits ∈ decimals, ∀ c ∈ digits, c.isDigit = true) :
    (FilterToken.number (numeral negative whole decimals)).Reads context true := by
  obtain ⟨c, cs, hcons, hc⟩ : ∃ c cs, numeral negative whole decimals = c :: cs ∧
      (c = '-' ∨ c.isDigit = true) := by
    cases negative with
    | true => exact ⟨'-', _, rfl, Or.inl rfl⟩
    | false =>
      cases hwhole : Nat.toDigits 10 whole with
      | nil => exact absurd hwhole Nat.toDigits_ne_nil
      | cons c cs =>
        refine ⟨c, cs ++ decimals.elim [] fun digits => '.' :: digits, ?_, Or.inr ?_⟩
        · simp [numeral, hwhole]
        · exact isDigit_of_mem_toDigits (n := whole) (hwhole ▸ mem_cons_self)
  have hfirst : c ≠ ')' ∧ c ≠ '\x22' ∧ isFilterSpace c = false := by
    rcases hc with rfl | hc
    · decide
    · obtain ⟨hmem, -, hspace⟩ := isDigit_ne hc
      exact ⟨fun heq => hmem (by simp [heq]), fun heq => hmem (by simp [heq]), hspace⟩
  refine ⟨?_, fun rest hrest => ?_⟩
  · change (numeral negative whole decimals).head?.any (!isFilterSpace ·) = true
    rw [hcons]
    change (!isFilterSpace c) = true
    rw [hfirst.2.2]
    rfl
  · have hscan := scanNumber_numeral negative whole hdigits hrest
    change scanToken context (numeral negative whole decimals ++ rest) = _
    rw [hcons, cons_append] at hscan ⊢
    rw [scanToken_value h hfirst.1, scanValue, hscan]
    · rfl
    · exact fun _ heq => hfirst.2.1 (List.cons.inj heq).1

/-! ## Scanning a tree -/

theorem reads_literal (h : context = .op ∨ context = .items) (x : FilterLiteral) :
    x.token.Reads context x.oneLine := by
  have hdecimal : ∀ (m : ℤ) (scale : ℕ),
      (FilterToken.number (decimalNumeral m scale)).Reads context true := by
    intro m scale
    refine reads_number h _ _ ?_
    rintro _ ⟨⟩ c hc
    exact isDigit_of_mem_lastDigits hc
  cases x with
  | str s =>
    refine ⟨by rfl, fun rest _ => ?_⟩
    change scanToken context ('\x22' :: ((escaped s.toList ++ ['\x22']) ++ rest)) = _
    rw [scanToken_value h (by decide), append_assoc]
    change (scanString (escaped s.toList ++ '\x22' :: rest)).map _ = _
    rw [scanString_escaped]
    change _ = if s.toList.all (· ≠ '\n') = true then _ else _
    split_ifs <;> rfl
  | int n => exact reads_number h _ _ fun _ h => (not_mem_none _ h).elim
  | float m scale => exact hdecimal m scale
  | decimal m scale => exact hdecimal m scale

namespace Scans

variable {context' context'' : LexerContext} {token : FilterToken} {tokens more : List FilterToken}
  {b b' : Bool}

theorem nil : Scans context [] context true := by
  intro n post _
  simp

theorem append (h : Scans context tokens context' b) (hmore : Scans context' more context'' b') :
    Scans context (tokens ++ more) context'' (b && b') := by
  intro n post hn
  rw [length_append] at hn
  rw [append_assoc, h n _ (by omega), hmore _ post (by omega)]
  cases b <;> cases b' <;> simp [Nat.sub_sub, Function.comp_def]

theorem single (h : token.Reads context b) : Scans context [token] (context.next token) b := by
  intro n post hn
  obtain ⟨hfirst, hread⟩ := h
  have hbreaks : Breaks (tokensText post) := by
    intro c hc
    cases post with
    | nil => cases hc
    | cons => exact (mem_some_iff.mp hc).symm
  obtain ⟨n, rfl⟩ : ∃ m, n = m + 1 := ⟨n - 1, by rw [length_singleton] at hn; omega⟩
  cases htext : token.text with
  | nil =>
    rw [htext] at hfirst
    cases hfirst
  | cons c cs =>
    have hc : isFilterSpace c = false := by
      rw [htext] at hfirst
      simpa using hfirst
    have hread' := hread _ hbreaks
    rw [htext, cons_append] at hread'
    have hdrop : (tokensText ([token] ++ post)).dropWhile isFilterSpace =
        c :: (cs ++ tokensText post) := by
      change (' ' :: token.text ++ tokensText post).dropWhile isFilterSpace = _
      rw [htext]
      change (c :: (cs ++ tokensText post)).dropWhile isFilterSpace = _
      rw [dropWhile_cons_of_neg (by rw [hc]; exact Bool.false_ne_true)]
    conv_lhs => unfold scan
    rw [hdrop]
    dsimp only
    rw [hread']
    cases b <;> rfl

theorem cons (h : token.Reads context b) (hmore : Scans (context.next token) more context' b') :
    Scans context (token :: more) context' (b && b') := (single h).append hmore

/-- A terminal with one text. -/
theorem fixed (h : token ∈ context.fixed) (hmore : Scans (context.next token) more context' b) :
    Scans context (token :: more) context' b := by
  have hcons := cons (reads_fixed h) hmore
  rwa [Bool.true_and] at hcons

/-- Two terms with a connective between them, in parentheses. -/
theorem group {word : FilterToken} (h : Scans .term tokens .end_ b)
    (hmore : Scans .term more .end_ b') (hword : word = keyword "AND" ∨ word = keyword "OR") :
    Scans .term (.lpar :: (tokens ++ word :: more ++ [FilterToken.rpar])) .end_ (b && b') := by
  have hrpar : Scans .end_ [.rpar] .end_ true := fixed (by decide) nil
  have hright : Scans .end_ (word :: more) .end_ b' := by
    rcases hword with rfl | rfl <;> exact fixed (by decide) hmore
  have hboth := (h.append hright).append hrpar
  rw [Bool.and_true] at hboth
  exact fixed (by decide) hboth

end Scans

theorem scans_values (xs : List FilterLiteral) :
    Scans .end_ (valuesTokens xs) .end_ (xs.all FilterLiteral.oneLine) := by
  induction xs with
  | nil => exact .fixed (by decide) .nil
  | cons x xs ih => exact .fixed (by decide) (.cons (reads_literal (Or.inl rfl) x) ih)

theorem FilterComparison.scans {node : FilterComparison FilterLiteral} (h : node.WellFormed) :
    Scans .term node.tokens .end_ (node.value.all.all FilterLiteral.oneLine) := by
  obtain ⟨field, op, value⟩ := node
  obtain ⟨⟨hstart, hall, hname⟩, hop⟩ := h
  have hfield := reads_name hstart hall fun hnot => hname (hnot ▸ by decide)
  refine .cons (b := true) hfield ?_
  cases value with
  | none =>
    rcases hop with rfl | rfl
    · change Scans .field [keyword "IS", keyword "NULL"] .end_ true
      exact .fixed (by decide) (.fixed (by decide) .nil)
    · change Scans .field [keyword "IS", keyword "NOT", keyword "NULL"] .end_ true
      exact .fixed (by decide) (.fixed (by decide) (.fixed (by decide) .nil))
  | scalar x =>
    have hop : op.token ∈ LexerContext.field.fixed ∧ LexerContext.field.next op.token = .op := by
      cases op with
      | equal | notEqual | greaterThan | lessThan | greaterEqual | lessEqual | like =>
        exact ⟨by decide, rfl⟩
      | in_ | isNull | isNotNull => cases hop
    have hx : Scans (LexerContext.field.next op.token) [x.token] .end_ (x.oneLine && true) := by
      rw [hop.2]
      exact .cons (reads_literal (Or.inl rfl) x) .nil
    exact .fixed hop.1 hx
  | list xs =>
    obtain rfl : op = .in_ := hop
    cases xs with
    | nil =>
      change Scans .field [keyword "IN", .lpar, .rpar] .end_ true
      exact .fixed (by decide) (.fixed (by decide) (.fixed (by decide) .nil))
    | cons x xs =>
      have hvalues := Scans.cons (reads_literal (Or.inr rfl) x) (scans_values xs)
      change Scans .field (keyword "IN" :: .lpar :: x.token :: valuesTokens xs) .end_ _
      exact .fixed (by decide) (.fixed (by decide) hvalues)

theorem FilterNode.scans {t : FilterNode FilterLiteral} (h : t.WellFormed) :
    Scans .term t.tokens .end_ t.oneLine := by
  induction t with
  | comparison node => exact node.scans h
  | and left right ihl ihr => exact (ihl h.1).group (ihr h.2) (Or.inl rfl)
  | or left right ihl ihr => exact (ihl h.1).group (ihr h.2) (Or.inr rfl)
  | not child ih =>
    have hrpar : Scans .end_ [.rpar] .end_ true := .fixed (by decide) .nil
    have hchild := (ih h).append hrpar
    rw [Bool.and_true] at hchild
    exact .fixed (by decide) (.cons (b := true) reads_not hchild)

/-- **The tokens of a tree are read back**, if each of its strings has one line. -/
theorem tokenize_text {t : FilterNode FilterLiteral} (h : t.WellFormed) :
    tokenize t.text = if t.oneLine then some t.tokens else none := by
  have hpos : ∀ tokens : List FilterToken,
      tokens.length ≤ (tokens.map fun token => (' ' :: token.text).length).sum := by
    intro tokens
    induction tokens with
    | nil => exact le_rfl
    | cons token tokens ih =>
      rw [map_cons, sum_cons, length_cons, length_cons]
      omega
  have hlength : t.tokens.length ≤ (tokensText t.tokens).length := by
    unfold tokensText
    rw [length_flatMap]
    exact hpos _
  have hscan := FilterNode.scans h _ [] hlength
  have hend : ∀ n, scan n .end_ (tokensText []) = some [] := fun n => by cases n <;> rfl
  rw [append_nil, hend, Option.map_some, append_nil] at hscan
  unfold tokenize FilterNode.text
  rw [String.toList_ofList]
  exact hscan

end Varco
