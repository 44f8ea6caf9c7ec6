import Varco.Foundations.Binary64
import Varco.Foundations.Text
import Varco.Query.Type

/-!
# Filter strings

The language of `grammar.lark`, what `QueryTransformer` makes of it, and `ASTTypeCoercion`. The
productions are those of the grammar, over the tokens of its terminals (`Expr`, `Term`, `Factor`).
Lark's contextual lexer looks for the terminals that the parser can take (`LexerContext`), so that
`AND` is a field where a term begins. `QueryParser.parse` is a parser by recursive descent, of which
the next module shows that it is the grammar.

The values of a tree are those that Python has there: the parser knows texts and numbers of type
`float`, and an absent optional group is `None`.
-/

namespace Varco

/-! ## Trees -/

/-- A value in a tree. -/
inductive FilterScalar
  | str (s : String)
  | int (n : ℤ)
  | float (x : Binary64)
  | none

/-- `value` of a `ComparisonNode`. -/
inductive FilterValue (α : Type)
  | none
  | scalar (x : α)
  | list (xs : List α)

/-- `ComparisonNode` -/
structure FilterComparison (α : Type) where
  field : String
  op : Operation
  value : FilterValue α

/-- `TransformerNode` -/
inductive FilterNode (α : Type)
  | comparison (node : FilterComparison α)
  | and (left right : FilterNode α)
  | or (left right : FilterNode α)
  | not (child : FilterNode α)

/-- `Operation(value)`, or none for a `ValueError`. -/
def Operation.ofValue : String → Option Operation
  | "=" => some .equal
  | "!=" => some .notEqual
  | ">" => some .greaterThan
  | "<" => some .lessThan
  | ">=" => some .greaterEqual
  | "<=" => some .lessEqual
  | "LIKE" => some .like
  | "IN" => some .in_
  | "IS_NULL" => some .isNull
  | "IS_NOT_NULL" => some .isNotNull
  | _ => none

/-! ## Terminals -/

/-- A terminal of the grammar, with its text; a `name` is a `CNAME`, and a `word` a keyword. -/
inductive FilterToken
  | word (text : List Char)
  | name (text : List Char)
  | op (text : List Char)
  | string (text : List Char)
  | number (text : List Char)
  | lpar
  | rpar
  | comma
  deriving DecidableEq

namespace FilterToken

def keyword (s : String) : FilterToken := .word s.toList

def text : FilterToken → List Char
  | .word text | .name text | .op text | .string text | .number text => text
  | .lpar => ['(']
  | .rpar => [')']
  | .comma => [',']

end FilterToken

open FilterToken (keyword)

/-- `WS` -/
def isFilterSpace (c : Char) : Bool := [' ', '\t', '\x0c', '\r', '\n'].contains c

/-- The first character of a `CNAME`. -/
def isNameStart (c : Char) : Bool := c.isAlpha || c == '_'

/-- A further character of a `CNAME`. -/
def isNameChar (c : Char) : Bool := isNameStart c || c.isDigit

def filterKeywords : List (List Char) :=
  ["AND", "OR", "NOT", "IS", "NULL", "IN", "LIKE"].map String.toList

/-- The rest of an `ESCAPED_STRING`, behind its first quote; it goes on to the end of the line. -/
def scanString : List Char → Option (List Char × List Char)
  | [] | '\n' :: _ | '\\' :: [] | '\\' :: '\n' :: _ => none
  | '\x22' :: cs => some (['\x22'], cs)
  | '\\' :: c :: cs => (scanString cs).map fun (text, rest) => ('\\' :: c :: text, rest)
  | c :: cs => (scanString cs).map fun (text, rest) => (c :: text, rest)

def scanSign : List Char → List Char × List Char
  | '+' :: cs => (['+'], cs)
  | '-' :: cs => (['-'], cs)
  | cs => ([], cs)

def scanDecimals : List Char → List Char × List Char
  | '.' :: cs => ('.' :: cs.takeWhile (·.isDigit), cs.dropWhile (·.isDigit))
  | cs => ([], cs)

def scanExponent : List Char → List Char × List Char
  | [] => ([], [])
  | c :: cs =>
    let (sign, rest) := scanSign cs
    let digits := rest.takeWhile (·.isDigit)
    if (c = 'e' ∨ c = 'E') ∧ digits ≠ [] then (c :: (sign ++ digits), rest.dropWhile (·.isDigit))
    else ([], c :: cs)

/-- `SIGNED_NUMBER` -/
def scanNumber (cs : List Char) : Option (List Char × List Char) :=
  let (sign, cs) := scanSign cs
  let whole := cs.takeWhile (·.isDigit)
  let (decimals, rest) := scanDecimals (cs.dropWhile (·.isDigit))
  if whole = [] ∧ decimals.length ≤ 1 then none
  else
    let (exponent, rest) := scanExponent rest
    some (sign ++ whole ++ decimals ++ exponent, rest)

/-- What the parser has read last: the beginning of a term, its field, `OP`, `IS`, `IS NOT`, `IN`,
the parenthesis behind it, or the end of a factor. -/
inductive LexerContext
  | term
  | field
  | op
  | is_
  | isNot
  | in_
  | items
  | end_

namespace LexerContext

/-- The terminals with one text that the parser can take, the longest of an `OP` first. -/
def fixed : LexerContext → List FilterToken
  | .term | .in_ => [.lpar]
  | .field => [.op "LIKE".toList, .op ['!', '='], .op ['>', '='], .op ['<', '='], .op ['='],
      .op ['>'], .op ['<'], keyword "IS", keyword "IN"]
  | .op => []
  | .is_ => [keyword "NULL", keyword "NOT"]
  | .isNot => [keyword "NULL"]
  | .items => [.rpar]
  | .end_ => [keyword "AND", keyword "OR", .rpar, .comma]

def next : LexerContext → FilterToken → LexerContext
  | .term, .name _ => .field
  | .field, .op _ | .end_, .comma => .op
  | .field, token => if token = keyword "IS" then .is_ else .in_
  | .is_, token => if token = keyword "NOT" then .isNot else .end_
  | .in_, _ => .items
  | .end_, .rpar | .op, _ | .isNot, _ | .items, _ => .end_
  | .term, _ | .end_, _ => .term

end LexerContext

/-- `CNAME`; one that is `NOT` is the keyword. -/
def scanName : List Char → Option (FilterToken × List Char)
  | [] => none
  | c :: cs =>
    let text := c :: cs.takeWhile isNameChar
    if !isNameStart c then none
    else if text = "NOT".toList then some (keyword "NOT", cs.dropWhile isNameChar)
    else some (.name text, cs.dropWhile isNameChar)

/-- `ESCAPED_STRING` or `SIGNED_NUMBER` -/
def scanValue : List Char → Option (FilterToken × List Char)
  | '\x22' :: cs => (scanString cs).map fun (text, rest) => (.string ('\x22' :: text), rest)
  | cs => (scanNumber cs).map fun (text, rest) => (.number text, rest)

/-- The first terminal of a text that does not begin with white space. -/
def scanToken (context : LexerContext) (cs : List Char) : Option (FilterToken × List Char) :=
  match context.fixed.find? (·.text.isPrefixOf cs) with
  | some token => some (token, cs.drop token.text.length)
  | none =>
    match context with
    | .term => scanName cs
    | .op | .items => scanValue cs
    | _ => none

/-- The terminals of a text, of which there are at most `n`. -/
def scan : ℕ → LexerContext → List Char → Option (List FilterToken)
  | n, context, cs =>
    match n, cs.dropWhile isFilterSpace with
    | _, [] => some []
    | 0, _ => none
    | n + 1, cs =>
      match scanToken context cs with
      | none => none
      | some (token, rest) => (scan n (context.next token) rest).map (token :: ·)

def tokenize (s : String) : Option (List FilterToken) := scan s.toList.length .term s.toList

/-! ## What a text denotes -/

def numberValue (text : List Char) : ℚ :=
  let (sign, unsigned) := scanSign text
  let mantissa := unsigned.takeWhile fun c => c ≠ 'e' ∧ c ≠ 'E'
  let (exponentSign, exponent) := scanSign ((unsigned.dropWhile fun c => c ≠ 'e' ∧ c ≠ 'E').drop 1)
  let whole := mantissa.takeWhile (· ≠ '.')
  let decimals := (mantissa.dropWhile (· ≠ '.')).drop 1
  let scale : ℤ := (if exponentSign = ['-'] then -1 else 1) * Nat.ofDigitChars 10 exponent 0 -
    decimals.length
  (if sign = ['-'] then -1 else 1) * Nat.ofDigitChars 10 (whole ++ decimals) 0 * (10 : ℚ) ^ scale

def underscoresOk : List Char → Bool
  | [] | [_] => true
  | c :: d :: cs =>
    (c != '_' && (d != '_' || (c.isDigit && (cs.head?.any (·.isDigit))))) && underscoresOk (d :: cs)

/-- `float(s)`, or none for a `ValueError`. -/
def pyFloat (s : String) : Option Binary64 :=
  let text := ((s.toList.dropWhile isPySpace).reverse.dropWhile isPySpace).reverse
  let (sign, unsigned) := scanSign (text.map Char.toLower)
  if unsigned = "inf".toList ∨ unsigned = "infinity".toList then some (.infinite (sign = ['-']))
  else if unsigned = "nan".toList then some .nan
  else if underscoresOk text then
    let text := text.filter (· ≠ '_')
    match scanNumber text with
    | some (_, []) => some (.nearest (numberValue text))
    | _ => none
  else none

/-! ## The transformer -/

namespace QueryTransformer

def string (text : List Char) : FilterScalar := .str (String.ofList (text.drop 1).dropLast)

def number (text : List Char) : FilterScalar := .float (.nearest (numberValue text))

def field (text : List Char) : String := String.ofList text

/-- `in_list`, of a field and the values behind it. -/
def inList (field : String) (values : List FilterScalar) : FilterNode FilterScalar :=
  .comparison ⟨field, .in_, .list values⟩

def isNull (field : String) : FilterNode FilterScalar := .comparison ⟨field, .isNull, .none⟩

def isNotNull (field : String) : FilterNode FilterScalar := .comparison ⟨field, .isNotNull, .none⟩

/-- `comparison`, or none for an `OperationNotFound`. -/
def comparison (field : String) (op : List Char) (value : FilterScalar) :
    Option (FilterNode FilterScalar) :=
  (Operation.ofValue (String.ofList op)).map fun op => .comparison ⟨field, op, .scalar value⟩

def andExpr (left right : FilterNode FilterScalar) : FilterNode FilterScalar := .and left right

def orExpr (left right : FilterNode FilterScalar) : FilterNode FilterScalar := .or left right

def notExpr (child : FilterNode FilterScalar) : FilterNode FilterScalar := .not child

def group (inner : FilterNode FilterScalar) : FilterNode FilterScalar := inner

end QueryTransformer

/-! ## The grammar -/

namespace FilterToken

/-- `CNAME` -/
def name? : FilterToken → Option (List Char)
  | .name text => some text
  | _ => none

/-- `OP` -/
def op? : FilterToken → Option (List Char)
  | .op text => some text
  | _ => none

/-- `value`: `string` or `number`. -/
def value? : FilterToken → Option FilterScalar
  | .string text => some (QueryTransformer.string text)
  | .number text => some (QueryTransformer.number text)
  | _ => none

end FilterToken

/-- `("," value)* ")"` -/
inductive FilterValues : List FilterToken → List FilterScalar → Prop
  | nil : FilterValues [.rpar] []
  | cons {token : FilterToken} {value : FilterScalar} {tokens : List FilterToken}
      {values : List FilterScalar} : token.value? = some value → FilterValues tokens values →
      FilterValues (.comma :: token :: tokens) (value :: values)

/-- `factor` -/
inductive FilterFactor : List FilterToken → FilterNode FilterScalar → Prop
  | comparison {name op value : FilterToken} {field text : List Char} {x : FilterScalar}
      {node : FilterNode FilterScalar} : name.name? = some field → op.op? = some text →
      value.value? = some x →
      QueryTransformer.comparison (QueryTransformer.field field) text x = some node →
      FilterFactor [name, op, value] node
  | isNull {name : FilterToken} {field : List Char} : name.name? = some field →
      FilterFactor [name, keyword "IS", keyword "NULL"]
        (QueryTransformer.isNull (QueryTransformer.field field))
  | isNotNull {name : FilterToken} {field : List Char} : name.name? = some field →
      FilterFactor [name, keyword "IS", keyword "NOT", keyword "NULL"]
        (QueryTransformer.isNotNull (QueryTransformer.field field))
  | inNone {name : FilterToken} {field : List Char} : name.name? = some field →
      FilterFactor [name, keyword "IN", .lpar, .rpar]
        (QueryTransformer.inList (QueryTransformer.field field) [.none])
  | inList {name token : FilterToken} {field : List Char} {value : FilterScalar}
      {tokens : List FilterToken} {values : List FilterScalar} : name.name? = some field →
      token.value? = some value → FilterValues tokens values →
      FilterFactor (name :: keyword "IN" :: .lpar :: token :: tokens)
        (QueryTransformer.inList (QueryTransformer.field field) (value :: values))

mutual

/-- `expr` -/
inductive FilterExpr : List FilterToken → FilterNode FilterScalar → Prop
  | andExpr {l r : List FilterToken} {left right : FilterNode FilterScalar} :
      FilterExpr l left → FilterTerm r right →
      FilterExpr (l ++ keyword "AND" :: r) (QueryTransformer.andExpr left right)
  | orExpr {l r : List FilterToken} {left right : FilterNode FilterScalar} :
      FilterExpr l left → FilterTerm r right →
      FilterExpr (l ++ keyword "OR" :: r) (QueryTransformer.orExpr left right)
  | term {tokens : List FilterToken} {node : FilterNode FilterScalar} :
      FilterTerm tokens node → FilterExpr tokens node

/-- `term` -/
inductive FilterTerm : List FilterToken → FilterNode FilterScalar → Prop
  | notExpr {tokens : List FilterToken} {node : FilterNode FilterScalar} :
      FilterTerm tokens node →
      FilterTerm (keyword "NOT" :: tokens) (QueryTransformer.notExpr node)
  | group {tokens : List FilterToken} {node : FilterNode FilterScalar} :
      FilterExpr tokens node →
      FilterTerm (.lpar :: (tokens ++ [.rpar])) (QueryTransformer.group node)
  | factor {tokens : List FilterToken} {node : FilterNode FilterScalar} :
      FilterFactor tokens node → FilterTerm tokens node

end

/-! ## The parser -/

/-- `AND` and `OR`. -/
inductive Connective
  | and
  | or
  deriving DecidableEq

def FilterToken.connective? (token : FilterToken) : Option Connective :=
  if token = keyword "AND" then some .and
  else if token = keyword "OR" then some .or
  else none

def Connective.node (left : FilterNode FilterScalar) :
    Connective → FilterNode FilterScalar → FilterNode FilterScalar
  | .and, right => QueryTransformer.andExpr left right
  | .or, right => QueryTransformer.orExpr left right

/-- A term, and the terms behind it with the connectives before them. -/
abbrev FilterChain := List (Connective × FilterNode FilterScalar)

/-- The tree of the rule `expr`, which is recursive on the left. -/
def leftTree (first : FilterNode FilterScalar) (chain : FilterChain) : FilterNode FilterScalar :=
  chain.foldl (fun left link => link.1.node left link.2) first

namespace QueryParser

open QueryTransformer

/-- `("," value)* ")"` -/
def parseValues : List FilterToken → Option (List FilterScalar × List FilterToken)
  | .rpar :: rest => some ([], rest)
  | .comma :: token :: rest =>
    match token.value?, parseValues rest with
    | some value, some (values, rest) => some (value :: values, rest)
    | _, _ => none
  | _ => none

/-- `factor` -/
def parseFactor (tokens : List FilterToken) :
    Option (FilterNode FilterScalar × List FilterToken) :=
  match tokens with
  | name :: second :: rest =>
    match name.name? with
    | none => none
    | some text =>
      let field := field text
      match second.op?, rest with
      | some op, token :: rest =>
        match token.value? with
        | none => none
        | some value => (comparison field op value).map (·, rest)
      | some _, [] => none
      | none, rest =>
        if second = keyword "IS" then
          match rest with
          | token :: rest =>
            if token = keyword "NULL" then some (isNull field, rest)
            else
              match rest with
              | token' :: rest =>
                if token = keyword "NOT" ∧ token' = keyword "NULL" then
                  some (isNotNull field, rest)
                else none
              | [] => none
          | [] => none
        else if second = keyword "IN" then
          match rest with
          | .lpar :: .rpar :: rest => some (inList field [.none], rest)
          | .lpar :: token :: rest =>
            match token.value?, parseValues rest with
            | some value, some (values, rest) =>
              some (inList field (value :: values), rest)
            | _, _ => none
          | _ => none
        else none
  | _ => none

abbrev Reading := FilterNode FilterScalar → FilterChain → FilterNode FilterScalar

mutual

/-- `expr`, with a depth of at most `n`. -/
def parseExpr (read : Reading) :
    ℕ → List FilterToken → Option (FilterNode FilterScalar × List FilterToken)
  | 0, _ => none
  | n + 1, tokens =>
    match parseTerm read n tokens with
    | none => none
    | some (first, rest) =>
      match parseChain read n rest with
      | none => none
      | some (chain, rest) => some (read first chain, rest)

def parseChain (read : Reading) : ℕ → List FilterToken → Option (FilterChain × List FilterToken)
  | 0, _ => none
  | _ + 1, [] => some ([], [])
  | n + 1, token :: tokens =>
    match token.connective? with
    | none => some ([], token :: tokens)
    | some connective =>
      match parseTerm read n tokens with
      | none => none
      | some (node, rest) =>
        match parseChain read n rest with
        | none => none
        | some (chain, rest) => some ((connective, node) :: chain, rest)

/-- `term` -/
def parseTerm (read : Reading) :
    ℕ → List FilterToken → Option (FilterNode FilterScalar × List FilterToken)
  | 0, _ => none
  | _ + 1, [] => none
  | n + 1, token :: tokens =>
    if token = keyword "NOT" then
      (parseTerm read n tokens).map fun (node, rest) => (notExpr node, rest)
    else if token = .lpar then
      match parseExpr read n tokens with
      | some (node, .rpar :: rest) => some (group node, rest)
      | _ => none
    else parseFactor (token :: tokens)

end

/-- The tree of a filter string whose chains are read by `read`, or none for an exception. -/
def parseWith (read : Reading) (s : String) : Option (FilterNode FilterScalar) :=
  match tokenize s with
  | none => none
  | some tokens =>
    match parseExpr read (2 * tokens.length + 2) tokens with
    | some (node, []) => some node
    | _ => none

def parse (query : String) : Option (FilterNode FilterScalar) := parseWith leftTree query

end QueryParser

/-! ## Coercion -/

/-- `CoercionError`, of a value and the name of a type. -/
structure CoercionError where
  value : FilterScalar
  target : String

def truncate (q : ℚ) : ℤ := q.num.tdiv q.den

def coerceInt (value : FilterScalar) : Except CoercionError FilterScalar :=
  match value with
  | .int n => .ok (.int n)
  | .float (.finite q) => .ok (.int (truncate q))
  | .float _ | .none => .error ⟨value, "int"⟩
  | .str s =>
    match pyInt s with
    | some n => .ok (.int n)
    | none => .error ⟨value, "int"⟩

def coerceFloat (value : FilterScalar) : Except CoercionError FilterScalar :=
  match value with
  | .float x => .ok (.float x)
  | .int n =>
    match Binary64.nearest n with
    | .finite q => .ok (.float (.finite q))
    | _ => .error ⟨value, "float"⟩
  | .str s =>
    match pyFloat s with
    | some x => .ok (.float x)
    | none => .error ⟨value, "float"⟩
  | .none => .error ⟨value, "float"⟩

/-- The type of a field. -/
inductive FieldType
  | int
  | float
  | str
  deriving DecidableEq

/-- The coercer that is registered for a type: `default_field_coercions` has none for `str`. -/
def FieldType.coercer : FieldType → Option (FilterScalar → Except CoercionError FilterScalar)
  | .int => some coerceInt
  | .float => some coerceFloat
  | .str => none

namespace ASTTypeCoercion

def visitComparison (types : String → FieldType) (node : FilterComparison FilterScalar) :
    Except CoercionError (FilterComparison FilterScalar) :=
  match (types node.field).coercer, node.value with
  | none, _ | _, .none => .ok node
  | some coercer, .list xs => do
    let coerced ← xs.mapM coercer
    return { node with value := .list coerced }
  | some coercer, .scalar x => do
    let coerced ← coercer x
    return { node with value := .scalar coerced }

def visit (types : String → FieldType) :
    FilterNode FilterScalar → Except CoercionError (FilterNode FilterScalar)
  | .comparison node => do return .comparison (← visitComparison types node)
  | .and left right => do
    let left ← visit types left
    let right ← visit types right
    return .and left right
  | .or left right => do
    let left ← visit types left
    let right ← visit types right
    return .or left right
  | .not child => do return .not (← visit types child)

end ASTTypeCoercion

end Varco
