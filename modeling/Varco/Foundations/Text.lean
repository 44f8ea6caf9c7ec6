import Mathlib.Data.String.Basic
import Varco.Foundations.Python

/-!
# Python text

The functions on `str` that the modelled programs call: case, `int()`, `repr()`, splitting and the
UTF-8 codec. The first two and `repr()` are for the characters of Latin-1, in which HTTP header
values are decoded; splitting and `isdigit()` follow the Unicode database.
-/

namespace Varco

/-! ## The order of strings -/

instance isTrans_string : IsTrans String (· ≤ ·) := inferInstance

instance antisymm_string : Std.Antisymm (α := String) (· ≤ ·) := inferInstance

instance total_string : Std.Total (α := String) (· ≤ ·) := inferInstance

/-- `str.upper()`, for ASCII. -/
def pyUpper (s : String) : String := String.ofList (s.toList.map Char.toUpper)

/-- `str.lower()`, for ASCII. -/
def pyLower (s : String) : String := String.ofList (s.toList.map Char.toLower)

/-- `str.isspace()` of one character. -/
def isPySpace (c : Char) : Bool :=
  [9, 10, 11, 12, 13, 28, 29, 30, 31, 32, 0x85, 0xa0].contains c.toNat

/-! ## Numbers -/

def digitValue (c : Char) : ℕ := c.toNat - 48

def pyDigits : List Char → Option (List ℕ)
  | [] => none
  | [c] => if c.isDigit then some [digitValue c] else none
  | c :: d :: cs =>
    if !c.isDigit then none
    else if d = '_' then (pyDigits cs).map (digitValue c :: ·)
    else (pyDigits (d :: cs)).map (digitValue c :: ·)

/-- The number of digits that `int()` accepts. -/
def maxIntDigits : ℕ := 4300

def pyNat (cs : List Char) : Option ℕ :=
  match pyDigits cs with
  | none => none
  | some ds => if ds.length ≤ maxIntDigits then some (ds.foldl (10 * · + ·) 0) else none

/-- `int(s)`, or none for a `ValueError`: white space around it is ignored, a sign may come
first. -/
def pyInt (s : String) : Option ℤ :=
  match ((s.toList.dropWhile isPySpace).reverse.dropWhile isPySpace).reverse with
  | '+' :: cs => (pyNat cs).map Int.ofNat
  | '-' :: cs => (pyNat cs).map fun n => -(n : ℤ)
  | cs => (pyNat cs).map Int.ofNat

example : pyInt " +1_024\n" = some 1024 ∧ pyInt "-7" = some (-7) ∧ pyInt "1__0" = none ∧
    pyInt "12a" = none ∧ pyInt "" = none := by
  decide +kernel

/-! ## `repr()` -/

def hexByte (n : ℕ) : String :=
  String.ofList [Nat.digitChar (n / 16), Nat.digitChar (n % 16)]

/-- A character inside the quotes `quote`. -/
def reprChar (quote c : Char) : String :=
  if c = quote ∨ c = Char.ofNat 92 then String.ofList [Char.ofNat 92, c]
  else if c.toNat = 9 then "\\t"
  else if c.toNat = 10 then "\\n"
  else if c.toNat = 13 then "\\r"
  else if c.toNat < 0x20 ∨ 0x7f ≤ c.toNat ∧ c.toNat ≤ 0xa0 ∨ c.toNat = 0xad then
    "\\x" ++ hexByte c.toNat
  else String.singleton c

/-- `repr(s)`: in single quotes, or in double quotes if that saves escapes. -/
def pyRepr (s : String) : String :=
  let single := Char.ofNat 39
  let double := Char.ofNat 34
  let quote := if s.toList.contains single && !s.toList.contains double then double else single
  String.singleton quote ++ String.join (s.toList.map (reprChar quote)) ++ String.singleton quote

/-- The `str()` of a list of strings. -/
def pyReprList (xs : List String) : String := "[" ++ ", ".intercalate (xs.map pyRepr) ++ "]"

/-! ## Splitting, and digits of any script -/

/-- `str.isspace()` of one character, for all of Unicode. -/
def isUniSpace (c : Char) : Bool :=
  isPySpace c || [0x1680, 0x2028, 0x2029, 0x202f, 0x205f, 0x3000].contains c.toNat ||
    (0x2000 ≤ c.toNat && c.toNat ≤ 0x200a)

/-- Texts joined by a separator come apart at its first place, if the first text does not hold it.
-/
theorem join_inj {α : Type} {c : α} {x x' y y' : List α} (hx : c ∉ x) (hx' : c ∉ x')
    (h : x ++ c :: y = x' ++ c :: y') : x = x' ∧ y = y' := by
  induction x generalizing x' with
  | nil =>
    cases x' with
    | nil => exact ⟨rfl, (List.cons.inj h).2⟩
    | cons d x' => exact absurd (List.mem_cons.mpr (.inl (List.cons.inj h).1)) hx'
  | cons d x ih =>
    cases x' with
    | nil => exact absurd (List.mem_cons.mpr (.inl (List.cons.inj h).1.symm)) hx
    | cons d' x' =>
      obtain ⟨rfl, htail⟩ := List.cons.inj h
      obtain ⟨rfl, rfl⟩ := ih (fun hc => hx (.tail _ hc)) (fun hc => hx' (.tail _ hc)) htail
      exact ⟨rfl, rfl⟩

/-- The pieces of a text between the characters that satisfy `p`. -/
def splitWhen (p : Char → Bool) : List Char → List (List Char)
  | [] => [[]]
  | c :: cs =>
    if p c then [] :: splitWhen p cs
    else
      match splitWhen p cs with
      | [] => [[c]]
      | piece :: pieces => (c :: piece) :: pieces

theorem splitWhen_eq_singleton {p : Char → Bool} {cs : List Char} (h : ∀ c ∈ cs, p c = false) :
    splitWhen p cs = [cs] := by
  induction cs with
  | nil => rfl
  | cons c cs ih =>
    have hc := h c List.mem_cons_self
    have rest := ih fun c' hc' => h c' (List.mem_cons_of_mem c hc')
    simp only [splitWhen, hc, rest]
    rfl

theorem splitWhen_append {p : Char → Bool} {cs rest : List Char} {d : Char}
    (h : ∀ c ∈ cs, p c = false) (hd : p d = true) :
    splitWhen p (cs ++ d :: rest) = cs :: splitWhen p rest := by
  induction cs with
  | nil => simp [splitWhen, hd]
  | cons c cs ih =>
    have hc := h c List.mem_cons_self
    have htail := ih fun c' hc' => h c' (List.mem_cons_of_mem c hc')
    simp [splitWhen, hc, htail]

/-- `s.split(sep)`, for one character. -/
def pySplit (sep : Char) (s : String) : List String :=
  (splitWhen (· = sep) s.toList).map String.ofList

/-- `s.split()` -/
def pySplitSpace (s : String) : List String :=
  ((splitWhen isUniSpace s.toList).filter (· ≠ [])).map String.ofList

/-- `s.strip()`, for whitespace of any script. -/
def pyStrip (s : String) : String :=
  String.ofList (((s.toList.dropWhile isUniSpace).reverse.dropWhile isUniSpace).reverse)

/-- `s.partition(sep)`, for one character that occurs in `s`. -/
def pyPartition (sep : Char) (s : String) : String × String :=
  (String.ofList (s.toList.takeWhile (· ≠ sep)),
    String.ofList ((s.toList.dropWhile (· ≠ sep)).drop 1))

/-- The zeros of the decimal digits of all scripts (general category Nd). -/
def decimalZeros : List ℕ :=
  [0x30, 0x660, 0x6f0, 0x7c0, 0x966, 0x9e6, 0xa66, 0xae6, 0xb66, 0xbe6, 0xc66, 0xce6, 0xd66, 0xde6,
    0xe50, 0xed0, 0xf20, 0x1040, 0x1090, 0x17e0, 0x1810, 0x1946, 0x19d0, 0x1a80, 0x1a90, 0x1b50,
    0x1bb0, 0x1c40, 0x1c50, 0xa620, 0xa8d0, 0xa900, 0xa9d0, 0xa9f0, 0xaa50, 0xabf0, 0xff10,
    0x104a0, 0x10d30, 0x11066, 0x110f0, 0x11136, 0x111d0, 0x112f0, 0x11450, 0x114d0, 0x11650,
    0x116c0, 0x11730, 0x118e0, 0x11950, 0x11c50, 0x11d50, 0x11da0, 0x11f50, 0x16a60, 0x16ac0,
    0x16b50, 0x1d7ce, 0x1d7d8, 0x1d7e2, 0x1d7ec, 0x1d7f6, 0x1e140, 0x1e2f0, 0x1e4d0, 0x1e950,
    0x1fbf0]

/-- The digits that are not decimal: superscripts, circled digits and the like. -/
def otherDigits : List (ℕ × ℕ) :=
  [(0xb2, 0xb3), (0xb9, 0xb9), (0x1369, 0x1371), (0x19da, 0x19da), (0x2070, 0x2070),
    (0x2074, 0x2079), (0x2080, 0x2089), (0x2460, 0x2468), (0x2474, 0x247c), (0x2488, 0x2490),
    (0x24ea, 0x24ea), (0x24f5, 0x24fd), (0x24ff, 0x24ff), (0x2776, 0x277e), (0x2780, 0x2788),
    (0x278a, 0x2792), (0x10a40, 0x10a43), (0x10e60, 0x10e68), (0x11052, 0x1105a),
    (0x1f100, 0x1f10a)]

def decimalValue (c : Char) : Option ℕ :=
  (decimalZeros.find? fun z => z ≤ c.toNat && c.toNat ≤ z + 9).map (c.toNat - ·)

/-- `s.isdigit()` -/
def pyIsDigit (s : String) : Bool :=
  s ≠ "" && s.toList.all fun c =>
    (decimalValue c).isSome || otherDigits.any fun r => r.1 ≤ c.toNat && c.toNat ≤ r.2

/-- `int(s)`, of a text of digits: those that are not decimal are refused, and too many. -/
def intOfDigits (s : String) : Except PyException ℕ :=
  match s.toList.mapM decimalValue with
  | none => .error (.valueError ("invalid literal for int() with base 10: " ++ pyRepr s))
  | some ds =>
    if ds.length ≤ maxIntDigits then .ok (ds.foldl (10 * · + ·) 0)
    else .error (.valueError ("Exceeds the limit (4300 digits) for integer string conversion: " ++
      "value has " ++ toString ds.length ++
      " digits; use sys.set_int_max_str_digits() to increase the limit"))

/-! ## UTF-8 -/

def isSurrogate (n : ℕ) : Bool := 0xd800 ≤ n && n ≤ 0xdfff

/-- The refusal of the surrogates from `i` on, of which there are `n`. -/
def surrogateError (i n : ℕ) (first : ℕ) : PyException :=
  let place :=
    if n = 1 then "character '\\u" ++ hexByte (first / 256) ++ hexByte (first % 256) ++
      "' in position " ++ toString i
    else "characters in position " ++ toString i ++ "-" ++ toString (i + n - 1)
  ⟨"UnicodeEncodeError", "'utf-8' codec can't encode " ++ place ++ ": surrogates not allowed"⟩

/-- `str.encode("utf-8")`, of a string that is given by its code points. -/
def encodeUtf8 (codePoints : List ℕ) : Except PyException Bytes :=
  match codePoints.dropWhile (!isSurrogate ·) with
  | [] => .ok (codePoints.flatMap fun n => String.utf8EncodeChar (Char.ofNat n))
  | first :: rest =>
    .error (surrogateError (codePoints.takeWhile (!isSurrogate ·)).length
      (1 + (rest.takeWhile isSurrogate).length) first)

end Varco
